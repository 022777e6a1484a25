import Console816.Processor.Execution

namespace Console816

structure Instruction where
  operation : Operation
  -- where the opcode was found
  address : Address
  operand : Operand
  deriving DecidableEq, Repr

namespace Execution

variable {μ : Type} [Memory μ]

-- Operand bytes never leave the bank of the opcode.
def operandByte (opcodeAt : Address) (index : UInt16) : Execution μ UInt8 :=
  loadByte (opcodeAt.advance (1 + index))

def operandWord (opcodeAt : Address) : Execution μ UInt16 := do
  let low ← operandByte opcodeAt 0
  let high ← operandByte opcodeAt 1
  return Word.join low high

def operandLong (opcodeAt : Address) : Execution μ Address := do
  let offset ← operandWord opcodeAt
  let bank ← operandByte opcodeAt 2
  return ⟨bank, offset⟩

-- A constant that may be a word but is a byte now is no different from one that always is.
def operandConstant (opcodeAt : Address) : Width → Execution μ Operand
  | .byte => return .byteConstant (← operandByte opcodeAt 0)
  | .word => return .constant (← operandWord opcodeAt)

def decodeOperand (opcodeAt : Address) (mode : Mode) : Execution μ Operand := do
  match mode with
  | .implied => return .implied
  | .accumulator => return .accumulator
  | .accumulatorConstant => operandConstant opcodeAt (← registers).accumulatorWidth
  | .indexConstant => operandConstant opcodeAt (← registers).indexWidth
  | .byteConstant => return .byteConstant (← operandByte opcodeAt 0)
  | .relative => return .relative (← operandByte opcodeAt 0).toInt8
  | .relativeLong => return .relativeLong (← operandWord opcodeAt).toInt16
  | .direct => return .direct (← operandByte opcodeAt 0)
  | .directX => return .directX (← operandByte opcodeAt 0)
  | .directY => return .directY (← operandByte opcodeAt 0)
  | .directXIndirect => return .directXIndirect (← operandByte opcodeAt 0)
  | .directIndirect => return .directIndirect (← operandByte opcodeAt 0)
  | .directIndirectY => return .directIndirectY (← operandByte opcodeAt 0)
  | .directIndirectLong => return .directIndirectLong (← operandByte opcodeAt 0)
  | .directIndirectLongY => return .directIndirectLongY (← operandByte opcodeAt 0)
  | .absolute => return .absolute (← operandWord opcodeAt)
  | .absoluteX => return .absoluteX (← operandWord opcodeAt)
  | .absoluteY => return .absoluteY (← operandWord opcodeAt)
  | .absoluteXIndirect => return .absoluteXIndirect (← operandWord opcodeAt)
  | .absoluteIndirect => return .absoluteIndirect (← operandWord opcodeAt)
  | .absoluteIndirectLong => return .absoluteIndirectLong (← operandWord opcodeAt)
  | .long =>
    let target ← operandLong opcodeAt
    return .long target.bank target.offset
  | .longX =>
    let target ← operandLong opcodeAt
    return .longX target.bank target.offset
  | .stackRelative => return .stackRelative (← operandByte opcodeAt 0)
  | .stackRelativeIndirectY => return .stackRelativeIndirectY (← operandByte opcodeAt 0)
  | .blockMove =>
    let target ← operandByte opcodeAt 0
    let source ← operandByte opcodeAt 1
    return .blockMove target source

-- Reads the instruction at K:PC and moves PC past it. PC stays when the instruction cannot be read.
def fetch (table : OpcodeTable) : Execution μ Instruction := do
  let r ← registers
  let address : Address := ⟨r.k, r.pc⟩
  let opcode ← loadByte address
  match table.get? opcode with
  | none => throw (.unknownOpcode opcode address)
  | some operation =>
    let operand ← decodeOperand address operation.mode
    modifyRegisters ({ · with pc := r.pc + (operation.size r.p).toUInt16 })
    return ⟨operation, address, operand⟩

end Execution

end Console816
