import Console816.Processor.Step

namespace Console816

-- The opcode table belongs to the processor and not to its state, so that saved states leave it
-- alone. `cycles` counts from power-on.
structure Processor where
  registers : Registers
  interrupts : InterruptState
  opcodes : OpcodeTable
  cycles : UInt64

-- What is needed to go on later.
structure ProcessorState where
  registers : Registers
  interrupts : InterruptState
  cycles : UInt64
  deriving DecidableEq, Repr

namespace Processor

-- A reset is pending at power-on, so that the first tick jumps through its vector.
def powerOn : Processor where
  registers := .powerOn
  interrupts := InterruptState.request {} .reset
  opcodes := .standard
  cycles := 0

instance : Inhabited Processor := ⟨powerOn⟩

-- Runs a part of the processor's work on a memory. Cycles count only if nothing fails.
def execute {μ : Type} (work : Execution μ Unit) (processor : Processor) (memory : μ) :
    Except ProcessorError Nat × Processor × μ :=
  match processor with
  | ⟨registers, interrupts, opcodes, cycles⟩ =>
    match work ⟨registers, interrupts, memory, 0⟩ with
    | (.ok _, machine) =>
      (.ok machine.cycles,
        ⟨machine.registers, machine.interrupts, opcodes, cycles + machine.cycles.toUInt64⟩,
        machine.memory)
    | (.error error, machine) =>
      (.error error, ⟨machine.registers, machine.interrupts, opcodes, cycles⟩, machine.memory)

variable {μ : Type} [Memory μ]

-- Answers with the cycles that were spent.
def tick (processor : Processor) (memory : μ) : Except ProcessorError Nat × Processor × μ :=
  processor.execute (Execution.tick processor.opcodes) memory

-- Resets at once instead of at the next tick.
def reset (processor : Processor) (memory : μ) : Except ProcessorError Nat × Processor × μ :=
  processor.execute (Execution.enter .reset) memory

def request (processor : Processor) (interrupt : Interrupt) : Processor :=
  { processor with interrupts := processor.interrupts.request interrupt }

def isHalted (processor : Processor) : Bool := processor.interrupts.isHalted

-- The address of the next instruction.
def programCounter (processor : Processor) : Address :=
  ⟨processor.registers.k, processor.registers.pc⟩

def saveState (processor : Processor) : ProcessorState :=
  ⟨processor.registers, processor.interrupts, processor.cycles⟩

def loadState (processor : Processor) (state : ProcessorState) : Processor :=
  ⟨state.registers, state.interrupts, processor.opcodes, state.cycles⟩

end Processor

end Console816
