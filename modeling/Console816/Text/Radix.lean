namespace Console816.Text

-- Number text in a base up to sixteen. Letters are upper case.
def digit (n : Nat) : Char :=
  if n < 10 then Char.ofNat (48 + n) else Char.ofNat (55 + n)

-- The lowest `count` digits of `n`, the highest of them first.
def digits (base : Nat) : Nat → Nat → List Char
  | 0, _ => []
  | count + 1, n => digits base count (n / base) ++ [digit (n % base)]

-- The number of hexadecimal digits that `n` needs. Zero needs one.
def hexLength (n : Nat) : Nat :=
  if n < 16 then 1 else hexLength (n / 16) + 1

-- At least `least` digits, and more where the value needs them.
def hex (least n : Nat) : String :=
  String.ofList (digits 16 (max least (hexLength n)) n)

def hexByte (value : UInt8) : String := hex 2 value.toNat

def hexWord (value : UInt16) : String := hex 4 value.toNat

-- With the base marked, as messages write a byte.
def markedByte (value : UInt8) : String := "0x" ++ hexByte value

-- With the base marked and no leading zeros.
def marked (n : Nat) : String := "0x" ++ hex 1 n

def markedLower (n : Nat) : String := "0x" ++ (hex 1 n).toLower

-- All eight bits of a byte.
def markedBits (value : UInt8) : String :=
  "0b" ++ String.ofList (digits 2 8 value.toNat)

-- A displacement always shows its sign.
def signed (n : Int) : String :=
  if n < 0 then toString n else "+" ++ toString n

def padRight (width : Nat) (text : String) : String :=
  text ++ String.ofList (List.replicate (width - text.length) ' ')

end Console816.Text
