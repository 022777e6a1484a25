import Console816.Instruction.Mnemonic
import Console816.Instruction.Mode

namespace Console816

-- What an opcode stands for.
structure Operation where
  opcode : UInt8
  mnemonic : Mnemonic
  mode : Mode
  cycles : UInt8
  deriving DecidableEq, Repr

namespace Operation

-- The size of the instruction with 16-bit registers.
def baseSize (operation : Operation) : Nat := 1 + operation.mode.operandBytes

def size (operation : Operation) (p : Status) : Nat := 1 + operation.mode.operandBytesFor p

end Operation

-- Opcodes without an operation cannot be executed.
structure OpcodeTable where
  get? : UInt8 → Option Operation

namespace OpcodeTable

def insert (table : OpcodeTable) (operation : Operation) : OpcodeTable where
  get? opcode := if opcode = operation.opcode then some operation else table.get? opcode

def erase (table : OpcodeTable) (removed : UInt8) : OpcodeTable where
  get? opcode := if opcode = removed then none else table.get? opcode

end OpcodeTable

end Console816
