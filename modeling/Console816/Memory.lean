import Console816.Address

namespace Console816

inductive BusError where
  | invalidAddress (error : AddressError)
  | unmappedCartridgeRead (address : Address)
  deriving DecidableEq, Repr

def BusError.message : BusError → String
  | .invalidAddress error => "Invalid address: " ++ error.message
  | .unmappedCartridgeRead address =>
    "Cartridge has nothing mapped at " ++ address.text

-- What the processor sees of the outside. Loads may change the memory as well as stores, both may
-- fail, and a failing access may leave a changed memory behind.
class Memory (μ : Type) where
  load : Address → μ → Except BusError UInt8 × μ
  store : Address → UInt8 → μ → Except BusError Unit × μ

end Console816
