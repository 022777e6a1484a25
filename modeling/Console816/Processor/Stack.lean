import Console816.Processor.Execution

namespace Console816.Execution

variable {μ : Type} [Memory μ]

-- The stack lies in bank 0 and S points at its next free byte.
def pushByte (value : UInt8) : Execution μ Unit := do
  storeByte ⟨0, (← registers).s⟩ value
  modifyRegisters Registers.stackDown

-- The high byte goes first, so that the word lies low byte first.
def pushWord (value : UInt16) : Execution μ Unit := do
  pushByte (Word.high value)
  pushByte (Word.low value)

def pushWide (value : UInt16) : Width → Execution μ Unit
  | .byte => pushByte (Word.low value)
  | .word => pushWord value

-- S moves before the load, so it has moved even when the load fails.
def pullByte : Execution μ UInt8 := do
  modifyRegisters Registers.stackUp
  loadByte ⟨0, (← registers).s⟩

def pullWord : Execution μ UInt16 := do
  let low ← pullByte
  let high ← pullByte
  return Word.join low high

def pullWide : Width → Execution μ UInt16
  | .byte => return (← pullByte).toUInt16
  | .word => pullWord

end Console816.Execution
