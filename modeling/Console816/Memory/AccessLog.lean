import Console816.Memory

namespace Console816

-- One attempt to reach memory, with what came of it.
inductive Access where
  | load (address : Address) (result : Except BusError UInt8)
  | store (address : Address) (value : UInt8) (result : Except BusError Unit)

namespace Access

def address : Access → Address
  | load address _ => address
  | store address _ _ => address

-- Failed attempts have no text.
def text? : Access → Option String
  | load address (.ok value) => some ("r" ++ Text.hex 6 address.raw ++ "=" ++ Text.hexByte value)
  | store address value (.ok _) =>
    some ("w" ++ Text.hex 6 address.raw ++ "=" ++ Text.hexByte value)
  | _ => none

end Access

-- A memory that writes down every access made to it, in order.
structure AccessLog (μ : Type) where
  memory : μ
  accesses : Array Access := #[]

instance {μ : Type} [Memory μ] : Memory (AccessLog μ) where
  load address log :=
    match log with
    | ⟨memory, accesses⟩ =>
      let (result, memory) := Memory.load address memory
      (result, ⟨memory, accesses.push (.load address result)⟩)
  store address value log :=
    match log with
    | ⟨memory, accesses⟩ =>
      let (result, memory) := Memory.store address value memory
      (result, ⟨memory, accesses.push (.store address value result)⟩)

end Console816
