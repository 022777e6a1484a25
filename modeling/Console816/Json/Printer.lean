import Console816.Json.Quoted

namespace Console816.Json

def writeDecimal (n : Nat) (out : ByteArray) : ByteArray :=
  if n < 10 then out.push (0x30 + n).toUInt8
  else (writeDecimal (n / 10) out).push (0x30 + n % 10).toUInt8

def writeBytes (bytes : List UInt8) (out : ByteArray) : ByteArray :=
  bytes.foldl ByteArray.push out

def writeQuoted (quoted : List UInt8) (out : ByteArray) : ByteArray :=
  (writeBytes quoted (out.push 0x22)).push 0x22

-- The compact form, without blanks.
mutual

def write : Json → ByteArray → ByteArray
  | null, out => writeBytes [0x6E, 0x75, 0x6C, 0x6C] out
  | bool true, out => writeBytes [0x74, 0x72, 0x75, 0x65] out
  | bool false, out => writeBytes [0x66, 0x61, 0x6C, 0x73, 0x65] out
  | integer negative magnitude, out =>
    writeDecimal magnitude (if negative then out.push 0x2D else out)
  | real literal, out => writeBytes literal out
  | string quoted, out => writeQuoted quoted out
  | array [], out => (out.push 0x5B).push 0x5D
  | array (item :: items), out => (writeItems items (write item (out.push 0x5B))).push 0x5D
  | object [], out => (out.push 0x7B).push 0x7D
  | object (member :: members), out =>
    (writeMembers members (writeMember member (out.push 0x7B))).push 0x7D

-- Each with a comma in front.
def writeItems : List Json → ByteArray → ByteArray
  | [], out => out
  | item :: items, out => writeItems items (write item (out.push 0x2C))

def writeMembers : List (List UInt8 × Json) → ByteArray → ByteArray
  | [], out => out
  | member :: members, out => writeMembers members (writeMember member (out.push 0x2C))

def writeMember : List UInt8 × Json → ByteArray → ByteArray
  | (key, value), out => write value ((writeQuoted key out).push 0x3A)

end

def bytes (document : Json) : ByteArray := write document ByteArray.empty

end Console816.Json
