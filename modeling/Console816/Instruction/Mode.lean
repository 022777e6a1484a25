import Console816.Status

namespace Console816

-- How an opcode's operand bytes are to be read.
inductive Mode where
  | implied
  | accumulator
  -- one or two bytes, as the width of A or of the index registers asks
  | accumulatorConstant
  | indexConstant
  | byteConstant
  | relative
  | relativeLong
  | direct
  | directX
  | directY
  | directXIndirect
  | directIndirect
  | directIndirectY
  | directIndirectLong
  | directIndirectLongY
  | absolute
  | absoluteX
  | absoluteY
  | absoluteXIndirect
  | absoluteIndirect
  | absoluteIndirectLong
  | long
  | longX
  | stackRelative
  | stackRelativeIndirectY
  | blockMove
  deriving DecidableEq, Repr

namespace Mode

def name : Mode → String
  | implied => "Implied"
  | accumulator => "Accumulator"
  | accumulatorConstant => "ImmediateMFlagDependent"
  | indexConstant => "ImmediateXFlagDependent"
  | byteConstant => "Constant8"
  | relative => "Relative8"
  | relativeLong => "Relative16"
  | direct => "DirectPage"
  | directX => "DirectPageXIndex"
  | directY => "DirectPageYIndex"
  | directXIndirect => "DirectPageXIndexIndirect"
  | directIndirect => "DirectPageIndirect"
  | directIndirectY => "DirectPageIndirectYIndex"
  | directIndirectLong => "DirectPageLongIndirect"
  | directIndirectLongY => "DirectPageLongIndirectYIndex"
  | absolute => "Address"
  | absoluteX => "AddressXIndex"
  | absoluteY => "AddressYIndex"
  | absoluteXIndirect => "AddressXIndexIndirect"
  | absoluteIndirect => "AddressIndirect"
  | absoluteIndirectLong => "AddressLongIndirect"
  | long => "Long"
  | longX => "LongXIndex"
  | stackRelative => "DirectPageSIndex"
  | stackRelativeIndirectY => "DirectPageSIndexIndirectYIndex"
  | blockMove => "BlockMove"

-- Operand bytes after the opcode, with 16-bit registers.
def operandBytes : Mode → Nat
  | implied | accumulator => 0
  | byteConstant | relative | direct | directX | directY | directXIndirect | directIndirect
  | directIndirectY | directIndirectLong | directIndirectLongY | stackRelative
  | stackRelativeIndirectY => 1
  | accumulatorConstant | indexConstant | relativeLong | absolute | absoluteX | absoluteY
  | absoluteXIndirect | absoluteIndirect | absoluteIndirectLong | blockMove => 2
  | long | longX => 3

-- A constant for an 8-bit register is a byte shorter.
def operandBytesFor (mode : Mode) (p : Status) : Nat :=
  match mode with
  | accumulatorConstant => p.accumulatorWidth.bytes
  | indexConstant => p.indexWidth.bytes
  | _ => mode.operandBytes

end Mode

end Console816
