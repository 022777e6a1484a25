namespace Console816

-- How much of a 16-bit register an instruction works on.
inductive Width where
  | byte
  | word
  deriving DecidableEq, Repr

namespace Width

def ofNarrow (narrow : Bool) : Width := if narrow then byte else word

def mask : Width → UInt16
  | byte => 0x00FF
  | word => 0xFFFF

def signBit : Width → UInt16
  | byte => 0x0080
  | word => 0x8000

def bits : Width → Nat
  | byte => 8
  | word => 16

def bytes : Width → Nat
  | byte => 1
  | word => 2

def isWord (width : Width) : Bool := width == word

def truncate (width : Width) (value : UInt16) : UInt16 := value &&& width.mask

-- Replaces the part of `register` that the width covers.
def merge (width : Width) (register value : UInt16) : UInt16 :=
  (register &&& ~~~width.mask) ||| (value &&& width.mask)

end Width

end Console816
