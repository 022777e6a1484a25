import Console816.Processor.Fetch

namespace Console816

-- Where the data of an instruction is. For jumps and branches the address is the target.
inductive Location where
  | accumulator
  | constant (value : UInt16)
  | memory (address : Address)
  deriving DecidableEq, Repr

namespace Registers

-- An index register counts only up to its width.
def indexX (r : Registers) : UInt16 := r.indexWidth.truncate r.x

def indexY (r : Registers) : UInt16 := r.indexWidth.truncate r.y

-- Direct page cells lie in bank 0, from D on.
def directCell (r : Registers) (offset : UInt8) : Address := ⟨0, r.d + offset.toUInt16⟩

def stackCell (r : Registers) (offset : UInt8) : Address := ⟨0, r.s + offset.toUInt16⟩

def unalignedDirect (r : Registers) : Nat := if r.d &&& 0xFF = 0 then 0 else 1

def wideIndex (r : Registers) : Nat := if r.p.has .narrowIndex then 0 else 1

end Registers

namespace Operand

-- Extra cycles for a direct page off a page boundary, and for 16-bit index registers.
def penalty (r : Registers) : Operand → Nat
  | direct _ | directX _ | directY _ | directXIndirect _ | directIndirect _ | directIndirectLong _
  | directIndirectLongY _ => r.unalignedDirect
  | directIndirectY _ => r.unalignedDirect + r.wideIndex
  | absoluteX _ | absoluteY _ => r.wideIndex
  | _ => 0

end Operand

namespace Execution

variable {μ : Type} [Memory μ]

def invalidOperand {α : Type} (operation : Operation) : Execution μ α :=
  throw (.invalidOperand operation.opcode operation.mode)

-- The address that an operand names, if it names one. Pointers are read from memory.
def effectiveAddress (r : Registers) : Operand → Execution μ (Option Address)
  | .implied | .accumulator | .constant _ | .byteConstant _ | .blockMove _ _ => return none
  | .relative displacement =>
    return some ⟨r.k, r.pc + displacement.toInt16.toUInt16⟩
  | .relativeLong displacement => return some ⟨r.k, r.pc + displacement.toUInt16⟩
  | .direct offset => return some (r.directCell offset)
  | .directX offset => return some ((r.directCell offset).advance r.indexX)
  | .directY offset => return some ((r.directCell offset).advance r.indexY)
  | .directXIndirect offset => do
    let pointer ← loadWord ((r.directCell offset).advance r.indexX)
    return some ⟨r.dbr, pointer⟩
  | .directIndirect offset => do
    let pointer ← loadWord (r.directCell offset)
    return some ⟨r.dbr, pointer⟩
  | .directIndirectY offset => do
    let pointer ← loadWord (r.directCell offset)
    return some (Address.advance ⟨r.dbr, pointer⟩ r.indexY)
  | .directIndirectLong offset => do
    let pointer ← loadLong (r.directCell offset)
    return some pointer
  | .directIndirectLongY offset => do
    let pointer ← loadLong (r.directCell offset)
    return some (pointer.advanceLong r.indexY.toNat)
  | .absolute offset => return some ⟨r.dbr, offset⟩
  | .absoluteX offset => return some (Address.advance ⟨r.dbr, offset⟩ r.indexX)
  | .absoluteY offset => return some (Address.advance ⟨r.dbr, offset⟩ r.indexY)
  | .absoluteXIndirect offset => do
    let pointer ← loadWord (Address.advance ⟨r.k, offset⟩ r.indexX)
    return some ⟨r.k, pointer⟩
  | .absoluteIndirect offset => do
    let pointer ← loadWord ⟨0, offset⟩
    return some ⟨r.k, pointer⟩
  | .absoluteIndirectLong offset => do
    let pointer ← loadLong ⟨0, offset⟩
    return some pointer
  | .long bank offset => return some ⟨bank, offset⟩
  | .longX bank offset => return some (Address.advanceLong ⟨bank, offset⟩ r.indexX.toNat)
  | .stackRelative offset => return some (r.stackCell offset)
  | .stackRelativeIndirectY offset => do
    let pointer ← loadWord (r.stackCell offset)
    return some (Address.advance ⟨r.dbr, pointer⟩ r.indexY)

-- Finds the data of an instruction and charges what finding it costs.
def locate (instruction : Instruction) : Execution μ Location := do
  match instruction.operand with
  | .accumulator => return .accumulator
  | .constant value => return .constant value
  | .byteConstant value => return .constant value.toUInt16
  | operand =>
    let r ← registers
    charge (operand.penalty r)
    match ← effectiveAddress r operand with
    | some address => return .memory address
    | none => invalidOperand instruction.operation

-- For instructions that need an address, a register or a constant will not do.
def locateAddress (instruction : Instruction) : Execution μ Address := do
  match ← locate instruction with
  | .memory address => return address
  | _ => invalidOperand instruction.operation

def read (location : Location) (width : Width) : Execution μ UInt16 := do
  match location with
  | .accumulator => return width.truncate (← registers).a
  | .constant value => return width.truncate value
  | .memory address => load address width

-- Constants cannot be written.
def write (operation : Operation) (location : Location) (width : Width) (value : UInt16) :
    Execution μ Unit := do
  match location with
  | .accumulator => modifyRegisters fun r => { r with a := width.merge r.a value }
  | .constant _ => invalidOperand operation
  | .memory address => store address value width

end Execution

end Console816
