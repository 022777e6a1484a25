import Console816.Text.Radix
import Console816.Word

namespace Console816

-- A place in the 24-bit address space: one of 256 banks and an offset into it.
structure Address where
  bank : UInt8
  offset : UInt16
  deriving DecidableEq, Repr, Inhabited

inductive AddressError where
  | outOfRange (value : Nat)
  | bank (value : Nat)
  | offset (value : Nat)
  deriving DecidableEq, Repr

namespace AddressError

def message : AddressError → String
  | outOfRange value => "Address " ++ Text.marked value ++ " is outside of the 24-bit address space"
  | bank value => "Bank " ++ Text.marked value ++ " does not fit in 8 bits"
  | offset value => "Offset " ++ Text.marked value ++ " does not fit in 16 bits"

end AddressError

namespace Address

-- The bank is checked before the offset.
def ofParts (bank offset : Nat) : Except AddressError Address :=
  if 0xFF < bank then .error (.bank bank)
  else if 0xFFFF < offset then .error (.offset offset)
  else .ok ⟨bank.toUInt8, offset.toUInt16⟩

-- The address as one number below 2^24.
def raw (address : Address) : Nat :=
  address.bank.toNat * 0x10000 + address.offset.toNat

-- Numbers outside of the address space wrap around it.
def wrap (n : Nat) : Address :=
  ⟨(n / 0x10000).toUInt8, n.toUInt16⟩

def ofRaw (n : Nat) : Except AddressError Address :=
  if n < 0x1000000 then .ok (wrap n) else .error (.outOfRange n)

def high (address : Address) : UInt8 := Word.high address.offset

def low (address : Address) : UInt8 := Word.low address.offset

-- Moving inside the bank: the offset wraps and the bank stays.
def advance (address : Address) (n : UInt16) : Address :=
  { address with offset := address.offset + n }

-- Moving through the whole address space: the offset carries into the bank.
def advanceLong (address : Address) (n : Nat) : Address :=
  wrap (address.raw + n)

-- Banks are compared before offsets.
instance : Ord Address where
  compare a b := (compare a.bank b.bank).then (compare a.offset b.offset)

def text (address : Address) : String :=
  "$" ++ Text.hexByte address.bank ++ ":" ++ Text.hexWord address.offset

instance : ToString Address := ⟨text⟩

end Address

end Console816
