import Console816.Journal.Remark

namespace Console816

-- A memory about whose stores there is something to say. A remark looks at the memory before the
-- store, and changes nothing.
class Remarking (μ : Type) where
  storeRemarks : μ → Address → UInt8 → List Remark

-- A memory with a journal of what happens to it and to the processor on it.
structure Observed (μ : Type) where
  memory : μ
  journal : Journal

instance {μ : Type} [Memory μ] [Remarking μ] : Memory (Observed μ) where
  load address observed :=
    match observed with
    | ⟨memory, journal⟩ =>
      let (result, memory) := Memory.load address memory
      (result, ⟨memory, journal⟩)
  store address value observed :=
    match observed with
    | ⟨memory, journal⟩ =>
      let journal :=
        if journal.level.isSome then
          journal.noteAll (Remarking.storeRemarks memory address value)
        else journal
      let (result, memory) := Memory.store address value memory
      (result, ⟨memory, journal⟩)

namespace Execution

variable {μ : Type}

def note (remark : Remark) : Execution (Observed μ) Unit :=
  modify fun machine =>
    { machine with
      memory := { machine.memory with journal := machine.memory.journal.note remark } }

def noteEntry (interrupt : Interrupt) : Execution (Observed μ) Unit := do
  let r ← registers
  note (.entered interrupt ⟨r.k, r.pc⟩)

variable [Memory μ] [Remarking μ]

-- A tick that tells what it does.
def observedTick (table : OpcodeTable) : Execution (Observed μ) Unit := do
  if let some interrupt := ← acknowledge then noteEntry interrupt
  unless ← isHalted do
    let instruction ← fetch table
    note (.executing instruction (← registers))
    run instruction
    if let .raise interrupt := instruction.operation.mnemonic.action then noteEntry interrupt

def observedReset : Execution (Observed μ) Unit := do
  enter .reset
  let r ← registers
  note (.processorReset ⟨r.k, r.pc⟩)

end Execution

namespace Processor

variable {μ : Type} [Memory μ] [Remarking μ]

def observedTick (processor : Processor) (observed : Observed μ) :
    Except ProcessorError Nat × Processor × Observed μ :=
  processor.execute (Execution.observedTick processor.opcodes) observed

def observedReset (processor : Processor) (observed : Observed μ) :
    Except ProcessorError Nat × Processor × Observed μ :=
  processor.execute Execution.observedReset observed

end Processor

end Console816
