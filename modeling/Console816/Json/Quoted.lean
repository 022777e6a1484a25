import Console816.Json.Basic

namespace Console816.Json

def hexValue? (byte : UInt8) : Option Nat :=
  if 0x30 ≤ byte && byte ≤ 0x39 then some (byte.toNat - 0x30)
  else if 0x41 ≤ byte && byte ≤ 0x46 then some (byte.toNat - 0x37)
  else if 0x61 ≤ byte && byte ≤ 0x66 then some (byte.toNat - 0x57)
  else none

-- The value of four hexadecimal digits of either case.
def codeUnit? (a b c d : UInt8) : Option Nat := do
  return (((← hexValue? a) * 16 + (← hexValue? b)) * 16 + (← hexValue? c)) * 16 + (← hexValue? d)

def isHexDigit (byte : UInt8) : Bool := (hexValue? byte).isSome

-- The bytes that stand behind a backslash for another byte.
def escaped? (byte : UInt8) : Option UInt8 :=
  match byte with
  | 0x22 | 0x5C | 0x2F => some byte
  | 0x62 => some 0x08
  | 0x66 => some 0x0C
  | 0x6E => some 0x0A
  | 0x72 => some 0x0D
  | 0x74 => some 0x09
  | _ => none

def scalarBytes (n : Nat) : List UInt8 := String.utf8EncodeChar (Char.ofNat n)

-- Undoes escapes. Half of a surrogate pair stands for nothing.
def unescape : List UInt8 → Option (List UInt8)
  | [] => some []
  | 0x5C :: 0x75 :: a :: b :: c :: d :: rest => do
    let unit ← codeUnit? a b c d
    if unit < 0xD800 || 0xE000 ≤ unit then
      return scalarBytes unit ++ (← unescape rest)
    else if unit < 0xDC00 then
      match rest with
      | 0x5C :: 0x75 :: a :: b :: c :: d :: rest => do
        let second ← codeUnit? a b c d
        if 0xDC00 ≤ second && second < 0xE000 then
          let scalar := 0x10000 + (unit - 0xD800) * 0x400 + (second - 0xDC00)
          return scalarBytes scalar ++ (← unescape rest)
        else none
      | _ => none
    else none
  | 0x5C :: byte :: rest => do
    let byte ← escaped? byte
    return byte :: (← unescape rest)
  | byte :: rest => do
    if byte == 0x5C then none else return byte :: (← unescape rest)

def hexByte (n : Nat) : UInt8 :=
  if n < 10 then (0x30 + n).toUInt8 else (0x57 + n).toUInt8

-- Quotes, backslashes and control characters need an escape.
def escape (bytes : List UInt8) : List UInt8 :=
  bytes.flatMap fun byte =>
    if byte = 0x22 ∨ byte = 0x5C then [0x5C, byte]
    else if byte < 0x20 then
      [0x5C, 0x75, 0x30, 0x30, hexByte (byte.toNat / 16), hexByte (byte.toNat % 16)]
    else [byte]

def ofString (text : String) : Json := string (escape text.toUTF8.data.toList)

-- What stands between two quotes as text, if it is text.
def decoded? (quoted : List UInt8) : Option String := do
  String.fromUTF8? ⟨(← unescape quoted).toArray⟩

def text? : Json → Option String
  | string quoted => decoded? quoted
  | _ => none

end Console816.Json
