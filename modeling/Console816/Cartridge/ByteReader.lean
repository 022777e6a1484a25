import Console816.Word

namespace Console816

-- Reads a value off the front of some bytes, and leaves the rest.
abbrev ByteReader (α : Type) := StateT (List UInt8) Option α

namespace ByteReader

def byte : ByteReader UInt8
  | [] => none
  | byte :: rest => some (byte, rest)

-- Low byte first.
def word : ByteReader UInt16 := do
  let low ← byte
  let high ← byte
  return Word.join low high

-- Four bytes, the highest first.
def bigEndian32 : ByteReader UInt32 := do
  let a ← byte
  let b ← byte
  let c ← byte
  let d ← byte
  return a.toUInt32 <<< 24 ||| b.toUInt32 <<< 16 ||| c.toUInt32 <<< 8 ||| d.toUInt32

def take (count : Nat) : ByteReader (List UInt8) := fun bytes =>
  if count ≤ bytes.length then some (bytes.take count, bytes.drop count) else none

end ByteReader

end Console816
