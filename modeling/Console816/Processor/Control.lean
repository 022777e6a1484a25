import Console816.Processor.Entry
import Console816.Processor.Location

namespace Console816

def Condition.holds (p : Status) : Condition → Bool
  | .always => true
  | .flag tested value => p.has tested == value

namespace Registers

-- REP and SEP clear and set the flags that are named by a mask.
def putStatus (r : Registers) (mask : UInt8) (value : Bool) : Registers :=
  r.setStatus (r.p.putMask mask value)

-- XCE swaps C and E.
def exchangeEmulation (r : Registers) : Registers :=
  { r with p := r.p.put .carry r.emulation }.setEmulation (r.p.has .carry)

end Registers

namespace Execution

variable {μ : Type} [Memory μ]

-- The target is worked out even when the branch is not taken.
def branch (condition : Condition) (extra : Nat) (instruction : Instruction) :
    Execution μ Unit := do
  let taken := condition.holds (← registers).p
  let target ← locateAddress instruction
  if taken then
    modifyRegisters ({ · with pc := target.offset })
    charge extra

-- A short jump stays in the program bank.
def jump (instruction : Instruction) : Execution μ Unit := do
  let target ← locateAddress instruction
  modifyRegisters ({ · with pc := target.offset })

def jumpLong (instruction : Instruction) : Execution μ Unit := do
  let target ← locateAddress instruction
  modifyRegisters ({ · with k := target.bank, pc := target.offset })

-- The pushed return address is that of the last byte of the call, and the returns add one to it.
def call (instruction : Instruction) : Execution μ Unit := do
  pushWord ((← registers).pc - 1)
  jump instruction

def callLong (instruction : Instruction) : Execution μ Unit := do
  let r ← registers
  pushByte r.k
  pushWord (r.pc - 1)
  jumpLong instruction

def returnNear : Execution μ Unit := do
  let last ← pullWord
  modifyRegisters ({ · with pc := last + 1 })

def returnLong : Execution μ Unit := do
  let last ← pullWord
  let bank ← pullByte
  modifyRegisters ({ · with pc := last + 1, k := bank })

-- Pulls what the entry pushed, in reverse. The bank was pushed in native mode only, and costs a
-- cycle.
def returnInterrupt : Execution μ Unit := do
  let p ← pullByte
  modifyRegisters (·.setStatus ⟨p⟩)
  let pc ← pullWord
  modifyRegisters ({ · with pc })
  unless (← registers).emulation do
    let bank ← pullByte
    modifyRegisters ({ · with k := bank })
    charge 1

def putStatus (value : Bool) (instruction : Instruction) : Execution μ Unit := do
  match instruction.operand with
  | .byteConstant mask => modifyRegisters (·.putStatus mask value)
  | _ => invalidOperand instruction.operation

-- WAI does not wait for an IRQ that would be masked.
def wait : Execution μ Unit := do
  unless (← registers).p.has .irqDisable do
    modifyInterrupts ({ · with waiting := true })

def stop : Execution μ Unit := modifyInterrupts ({ · with stopped := true })

end Execution

end Console816
