import Console816.Text.Radix

namespace Console816

-- The operand bytes of one instruction, decoded but not yet looked up in registers or memory.
inductive Operand where
  | implied
  | accumulator
  | constant (value : UInt16)
  | byteConstant (value : UInt8)
  | relative (displacement : Int8)
  | relativeLong (displacement : Int16)
  | direct (offset : UInt8)
  | directX (offset : UInt8)
  | directY (offset : UInt8)
  | directXIndirect (offset : UInt8)
  | directIndirect (offset : UInt8)
  | directIndirectY (offset : UInt8)
  | directIndirectLong (offset : UInt8)
  | directIndirectLongY (offset : UInt8)
  | absolute (offset : UInt16)
  | absoluteX (offset : UInt16)
  | absoluteY (offset : UInt16)
  | absoluteXIndirect (offset : UInt16)
  | absoluteIndirect (offset : UInt16)
  | absoluteIndirectLong (offset : UInt16)
  | long (bank : UInt8) (offset : UInt16)
  | longX (bank : UInt8) (offset : UInt16)
  | stackRelative (offset : UInt8)
  | stackRelativeIndirectY (offset : UInt8)
  | blockMove (target source : UInt8)
  deriving DecidableEq, Repr

namespace Operand

private def byte (value : UInt8) : String := "$" ++ Text.hexByte value

private def word (value : UInt16) : String := "$" ++ Text.hexWord value

private def far (bank : UInt8) (offset : UInt16) : String := byte bank ++ ":" ++ Text.hexWord offset

-- Assembler syntax. Block moves are encoded with the target bank first and written with it last.
def text : Operand → String
  | implied => ""
  | accumulator => "a"
  | constant value => "#" ++ word value
  | byteConstant value => "#" ++ byte value
  | relative displacement => Text.signed displacement.toInt
  | relativeLong displacement => Text.signed displacement.toInt
  | direct offset => byte offset
  | directX offset => byte offset ++ ",x"
  | directY offset => byte offset ++ ",y"
  | directXIndirect offset => "(" ++ byte offset ++ ",x)"
  | directIndirect offset => "(" ++ byte offset ++ ")"
  | directIndirectY offset => "(" ++ byte offset ++ "),y"
  | directIndirectLong offset => "[" ++ byte offset ++ "]"
  | directIndirectLongY offset => "[" ++ byte offset ++ "],y"
  | absolute offset => word offset
  | absoluteX offset => word offset ++ ",x"
  | absoluteY offset => word offset ++ ",y"
  | absoluteXIndirect offset => "(" ++ word offset ++ ",x)"
  | absoluteIndirect offset => "(" ++ word offset ++ ")"
  | absoluteIndirectLong offset => "[" ++ word offset ++ "]"
  | long bank offset => far bank offset
  | longX bank offset => far bank offset ++ ",x"
  | stackRelative offset => byte offset ++ ",s"
  | stackRelativeIndirectY offset => "(" ++ byte offset ++ ",s),y"
  | blockMove target source => byte source ++ "," ++ byte target

end Operand

end Console816
