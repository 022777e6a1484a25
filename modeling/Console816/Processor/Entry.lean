import Console816.Processor.Stack

namespace Console816.Execution

variable {μ : Type} [Memory μ]

def loadVector (interrupt : Interrupt) (emulation : Bool) : Execution μ Unit := do
  let handler ← loadWord ⟨0, interrupt.vector emulation⟩
  modifyRegisters ({ · with pc := handler })

-- In emulation mode the break bit of the pushed status is set for BRK alone.
def pushedStatus (interrupt : Interrupt) (r : Registers) : UInt8 :=
  if r.emulation then (r.p.putMask Status.breakMask (interrupt == .brk)).byte else r.p.byte

-- Everything pending is forgotten, and nothing is pushed.
def enterReset : Execution μ Unit := do
  modifyInterrupts fun _ => {}
  modifyRegisters Registers.reset
  loadVector .reset true
  charge 7

-- K, PC and P are pushed, and the handler starts in bank 0 with interrupts disabled and decimal
-- mode off. Emulation mode does not push K and takes a cycle less.
def enterHandler (interrupt : Interrupt) : Execution μ Unit := do
  let r ← registers
  unless r.emulation do pushByte r.k
  pushWord r.pc
  pushByte (pushedStatus interrupt r)
  modifyRegisters fun r =>
    { r with p := (r.p.put .irqDisable true).put .decimal false, k := 0 }
  loadVector interrupt r.emulation
  charge (if r.emulation then 7 else 8)

def enter : Interrupt → Execution μ Unit
  | .reset => enterReset
  | interrupt => enterHandler interrupt

-- Services at most one pending interrupt, and says which.
def acknowledge : Execution μ (Option Interrupt) := do
  let irqDisabled := (← registers).p.has .irqDisable
  let taken ← modifyGet fun machine =>
    let (taken, interrupts) := machine.interrupts.poll irqDisabled
    (taken, { machine with interrupts })
  if let some interrupt := taken then enter interrupt
  return taken

end Console816.Execution
