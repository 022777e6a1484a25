import Console816.Json.Quoted

namespace Console816.Json

-- `atom` holds everything without parts: words, numbers and strings.
inductive Token where
  | openArray
  | closeArray
  | openObject
  | closeObject
  | comma
  | colon
  | atom (value : Json)

namespace Token

def isDigit (byte : UInt8) : Bool := 0x30 ≤ byte && byte ≤ 0x39

def decimalValue (digits : List UInt8) : Nat :=
  digits.foldl (fun value byte => value * 10 + (byte.toNat - 0x30)) 0

-- One digit or more, and nothing else.
def isDigits (bytes : List UInt8) : Bool := !bytes.isEmpty && bytes.all isDigit

-- Zeros in front are not allowed.
def isWhole (digits : List UInt8) : Bool :=
  isDigits digits && (digits.head? != some 0x30 || digits.length == 1)

private def isExponent (bytes : List UInt8) : Bool :=
  match bytes with
  | [] => true
  | mark :: rest =>
    (mark == 0x65 || mark == 0x45) &&
      match rest with
      | sign :: digits =>
        if sign == 0x2B || sign == 0x2D then isDigits digits else isDigits rest
      | [] => false

def isFraction (bytes : List UInt8) : Bool :=
  match bytes with
  | 0x2E :: rest => isDigits (rest.takeWhile isDigit) && isExponent (rest.dropWhile isDigit)
  | _ => isExponent bytes

-- A number is an integer if it has neither a fraction nor an exponent.
def number? (literal : List UInt8) : Option Json :=
  let negative := literal.head? == some 0x2D
  let unsigned := if negative then literal.drop 1 else literal
  let whole := unsigned.takeWhile isDigit
  let rest := unsigned.dropWhile isDigit
  if !isWhole whole || !isFraction rest then none
  else if rest.isEmpty then some (integer negative (decimalValue whole))
  else some (real literal)

-- What stands without quotes: three words and the numbers.
def bare? (literal : List UInt8) : Option Json :=
  if literal = [0x6E, 0x75, 0x6C, 0x6C] then some null
  else if literal = [0x74, 0x72, 0x75, 0x65] then some (bool true)
  else if literal = [0x66, 0x61, 0x6C, 0x73, 0x65] then some (bool false)
  else number? literal

-- What the bytes read so far are part of. Their texts are kept last byte first.
inductive Part where
  | between
  | bare (reversed : List UInt8)
  | quoted (reversed : List UInt8)
  | escaped (reversed : List UInt8)
  | codeUnit (reversed : List UInt8) (missing : Nat)

structure Scan where
  part : Part := .between
  -- last token first
  tokens : List Token := []

def isBlank (byte : UInt8) : Bool :=
  byte == 0x20 || byte == 0x0A || byte == 0x0D || byte == 0x09

def punctuation? : UInt8 → Option Token
  | 0x5B => some openArray
  | 0x5D => some closeArray
  | 0x7B => some openObject
  | 0x7D => some closeObject
  | 0x2C => some comma
  | 0x3A => some colon
  | _ => none

-- Between tokens, a byte is skipped, is a token of its own, or starts one.
def start (tokens : List Token) (byte : UInt8) : Scan :=
  if isBlank byte then ⟨.between, tokens⟩
  else if byte == 0x22 then ⟨.quoted [], tokens⟩
  else
    match punctuation? byte with
    | some token => ⟨.between, token :: tokens⟩
    | none => ⟨.bare [byte], tokens⟩

def isBoundary (byte : UInt8) : Bool :=
  isBlank byte || byte == 0x22 || (punctuation? byte).isSome

def Scan.step (scan : Scan) (byte : UInt8) : Option Scan :=
  match scan with
  | ⟨part, tokens⟩ =>
    match part with
    | .between => some (start tokens byte)
    | .bare reversed =>
      if isBoundary byte then do
        return start (atom (← bare? reversed.reverse) :: tokens) byte
      else some ⟨.bare (byte :: reversed), tokens⟩
    | .quoted reversed =>
      if byte == 0x22 then some ⟨.between, atom (string reversed.reverse) :: tokens⟩
      else if byte == 0x5C then some ⟨.escaped (byte :: reversed), tokens⟩
      else if byte < 0x20 then none
      else some ⟨.quoted (byte :: reversed), tokens⟩
    | .escaped reversed =>
      if byte == 0x75 then some ⟨.codeUnit (byte :: reversed) 4, tokens⟩
      else if (escaped? byte).isSome then some ⟨.quoted (byte :: reversed), tokens⟩
      else none
    | .codeUnit reversed missing =>
      if !isHexDigit byte then none
      else if missing ≤ 1 then some ⟨.quoted (byte :: reversed), tokens⟩
      else some ⟨.codeUnit (byte :: reversed) (missing - 1), tokens⟩

-- Input may end between tokens or right after a bare one.
def Scan.finish (scan : Scan) : Option (List Token) :=
  match scan.part with
  | .between => some scan.tokens.reverse
  | .bare reversed => do return (atom (← bare? reversed.reverse) :: scan.tokens).reverse
  | _ => none

def ofBytes? (input : List UInt8) : Option (List Token) := do
  (← input.foldlM Scan.step {}).finish

end Token

end Console816.Json
