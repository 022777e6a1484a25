import Console816.Proofs.Processor.Composition

namespace Console816

namespace Execution

variable {μ ν α β : Type}

section Matched

variable {related : Machine μ → Machine ν → Prop}

-- From related machines, two executions give the same answer or the same error, and they leave
-- related machines in either case.
def Matched (related : Machine μ → Machine ν → Prop) (first : Execution μ α)
    (second : Execution ν α) : Prop :=
  ∀ machine other, related machine other →
    (first machine).1 = (second other).1 ∧ related (first machine).2 (second other).2

namespace Matched

theorem pure (value : α) :
    Matched related (pure value : Execution μ α) (pure value : Execution ν α) :=
  fun _ _ hrel => ⟨rfl, hrel⟩

theorem throw (error : ProcessorError) :
    Matched related (throw error : Execution μ α) (throw error : Execution ν α) :=
  fun _ _ hrel => ⟨rfl, hrel⟩

theorem bind {first : Execution μ α} {second : Execution ν α} {next : α → Execution μ β}
    {next' : α → Execution ν β} (hfirst : Matched related first second)
    (hnext : ∀ value, Matched related (next value) (next' value)) :
    Matched related (first >>= next) (second >>= next') := by
  intro machine other hrel
  obtain ⟨hanswer, hafter⟩ := hfirst machine other hrel
  rw [bind_apply, bind_apply]
  rcases hone : first machine with ⟨answer, after⟩
  rcases htwo : second other with ⟨answer', after'⟩
  rw [hone, htwo] at hanswer hafter
  obtain rfl : answer = answer' := hanswer
  cases answer with
  | ok value => exact hnext value after after' hafter
  | error error => exact ⟨rfl, hafter⟩

end Matched

end Matched

-- Machines that differ at most in their memories. `kept` is what the registers satisfy.
structure Alike (kept : Registers → Prop) (related : μ → ν → Prop) (machine : Machine μ)
    (other : Machine ν) : Prop where
  registers : machine.registers = other.registers
  interrupts : machine.interrupts = other.interrupts
  cycles : machine.cycles = other.cycles
  kept : kept machine.registers
  memory : related machine.memory other.memory

namespace Matched

variable {kept : Registers → Prop} {related : μ → ν → Prop}

theorem registers : Matched (Alike kept related) registers registers :=
  fun _ _ hrel => ⟨congrArg Except.ok hrel.registers, hrel⟩

-- What the registers satisfy is known of the ones that are read.
theorem registers_bind {next : Registers → Execution μ β} {next' : Registers → Execution ν β}
    (hnext : ∀ r, kept r → Matched (Alike kept related) (next r) (next' r)) :
    Matched (Alike kept related) (Execution.registers >>= next)
      (Execution.registers >>= next') := by
  intro machine other hrel
  rw [registers_bind_apply, registers_bind_apply, ← hrel.registers]
  exact hnext machine.registers hrel.kept machine other hrel

theorem modifyRegisters {change : Registers → Registers}
    (hchange : ∀ r, kept r → kept (change r)) :
    Matched (Alike kept related) (modifyRegisters change) (modifyRegisters change) :=
  fun _ _ hrel =>
    ⟨rfl, { hrel with
      registers := congrArg change hrel.registers
      kept := hchange _ hrel.kept }⟩

theorem charge (cycles : Nat) : Matched (Alike kept related) (charge cycles) (charge cycles) :=
  fun _ _ hrel => ⟨rfl, { hrel with cycles := congrArg (· + cycles) hrel.cycles }⟩

theorem modifyInterrupts (change : InterruptState → InterruptState) :
    Matched (Alike kept related) (modifyInterrupts change) (modifyInterrupts change) :=
  fun _ _ hrel => ⟨rfl, { hrel with interrupts := congrArg change hrel.interrupts }⟩

theorem isHalted : Matched (Alike kept related) isHalted isHalted := by
  intro machine other hrel
  have hhalted := congrArg InterruptState.isHalted hrel.interrupts
  exact ⟨congrArg Except.ok hhalted, hrel⟩

-- Both take the same interrupt.
theorem poll (irqDisabled : Bool) :
    Matched (Alike kept related)
      (modifyGet fun machine =>
        let (taken, interrupts) := machine.interrupts.poll irqDisabled
        (taken, { machine with interrupts }))
      (modifyGet fun machine =>
        let (taken, interrupts) := machine.interrupts.poll irqDisabled
        (taken, { machine with interrupts })) := by
  intro machine other hrel
  have htaken := congrArg (fun interrupts => (interrupts.poll irqDisabled).1) hrel.interrupts
  have hleft := congrArg (fun interrupts => (interrupts.poll irqDisabled).2) hrel.interrupts
  exact ⟨congrArg Except.ok htaken, { hrel with interrupts := hleft }⟩

variable [Memory μ] [Memory ν]

theorem loadByte {address : Address}
    (hloaded : ∀ {memory other}, related memory other →
      (Memory.load address memory).1 = (Memory.load address other).1 ∧
        related (Memory.load address memory).2 (Memory.load address other).2) :
    Matched (Alike kept related) (loadByte address) (loadByte address) := by
  intro machine other hrel
  obtain ⟨hanswer, hmemory⟩ := hloaded hrel.memory
  simp only [Execution.loadByte]
  rcases hone : Memory.load address machine.memory with ⟨answer, memory⟩
  rcases htwo : Memory.load address other.memory with ⟨answer', memory'⟩
  rw [hone, htwo] at hanswer hmemory
  obtain rfl : answer = answer' := hanswer
  cases answer <;> exact ⟨rfl, { hrel with memory := hmemory }⟩

theorem storeByte {address : Address} {value : UInt8}
    (hstored : ∀ {memory other}, related memory other →
      (Memory.store address value memory).1 = (Memory.store address value other).1 ∧
        related (Memory.store address value memory).2 (Memory.store address value other).2) :
    Matched (Alike kept related) (storeByte address value) (storeByte address value) := by
  intro machine other hrel
  obtain ⟨hanswer, hmemory⟩ := hstored hrel.memory
  simp only [Execution.storeByte]
  rcases hone : Memory.store address value machine.memory with ⟨answer, memory⟩
  rcases htwo : Memory.store address value other.memory with ⟨answer', memory'⟩
  rw [hone, htwo] at hanswer hmemory
  obtain rfl : answer = answer' := hanswer
  cases answer <;> exact ⟨rfl, { hrel with memory := hmemory }⟩

end Matched

-- Loads answer alike on two memories and keep them related.
structure LoadsAlike [Memory μ] [Memory ν] (related : μ → ν → Prop) : Prop where
  loaded : ∀ (address : Address) {memory : μ} {other : ν}, related memory other →
    (Memory.load address memory).1 = (Memory.load address other).1 ∧
      related (Memory.load address memory).2 (Memory.load address other).2

namespace LoadsAlike

variable [Memory μ] [Memory ν] {kept : Registers → Prop} {related : μ → ν → Prop}

variable (loads : LoadsAlike related)
include loads

theorem composes : ComposesReads fun first second => Matched (Alike kept related) first second where
  pure := .pure
  bind := .bind
  registers := .registers
  charge := .charge
  loadByte address := .loadByte fun hrel => loads.loaded address hrel

theorem decodeOperand (opcodeAt : Address) (mode : Mode) :
    Matched (Alike kept related) (decodeOperand opcodeAt mode) (decodeOperand opcodeAt mode) :=
  loads.composes.decodeOperand opcodeAt mode

theorem locateAddress (instruction : Instruction) :
    Matched (Alike kept related) (locateAddress instruction) (locateAddress instruction) :=
  loads.composes.locateAddress .throw instruction

-- Entering a handler, as far as it goes without stores.

theorem loadVector (hcounter : ∀ r pc, kept r → kept { r with pc }) (interrupt : Interrupt)
    (emulation : Bool) :
    Matched (Alike kept related) (loadVector interrupt emulation)
      (loadVector interrupt emulation) :=
  Matched.bind (loads.composes.loadWord _) fun pc => .modifyRegisters fun r => hcounter r pc

theorem enterReset (hreset : ∀ r, kept r → kept r.reset)
    (hcounter : ∀ r pc, kept r → kept { r with pc }) :
    Matched (Alike kept related) enterReset enterReset :=
  (Matched.modifyInterrupts _).bind fun _ => (Matched.modifyRegisters hreset).bind fun _ =>
    (loads.loadVector hcounter _ _).bind fun _ => .charge _

end LoadsAlike

-- What it takes for two memories to drive the processor through the same steps: every access
-- answers alike on both and keeps them related. `kept` survives every change of the registers.
structure Lockstep [Memory μ] [Memory ν] (kept : Registers → Prop) (related : μ → ν → Prop) :
    Prop extends LoadsAlike related where
  changed : ∀ {change : Registers → Registers} {r : Registers},
    Registers.Change change → kept r → kept (change r)
  stored : ∀ (address : Address) (value : UInt8) {memory : μ} {other : ν}, related memory other →
    (Memory.store address value memory).1 = (Memory.store address value other).1 ∧
      related (Memory.store address value memory).2 (Memory.store address value other).2

namespace Lockstep

variable [Memory μ] [Memory ν] {kept : Registers → Prop} {related : μ → ν → Prop}

variable (lockstep : Lockstep kept related)
include lockstep

theorem composes : Composes fun first second => Matched (Alike kept related) first second where
  toComposesReads := lockstep.toLoadsAlike.composes
  modifyRegisters hchange := .modifyRegisters fun _ hkept => lockstep.changed hchange hkept
  storeByte address value := .storeByte fun hrel => lockstep.stored address value hrel
  throw := .throw
  waits := .modifyInterrupts _
  stops := .modifyInterrupts _

theorem enter (interrupt : Interrupt) :
    Matched (Alike kept related) (enter interrupt) (enter interrupt) :=
  lockstep.composes.enterAny (.modifyInterrupts _) interrupt

theorem acknowledge : Matched (Alike kept related) acknowledge acknowledge := by
  refine Matched.registers.bind fun r => Matched.bind (Matched.poll _) fun taken => ?_
  cases taken with
  | none => exact Matched.pure none
  | some interrupt => exact (lockstep.enter interrupt).bind fun _ => .pure _

theorem fetch (table : OpcodeTable) :
    Matched (Alike kept related) (fetch table) (fetch table) :=
  lockstep.composes.fetch table

theorem run (instruction : Instruction) :
    Matched (Alike kept related) (run instruction) (run instruction) :=
  lockstep.composes.run instruction

theorem tick (table : OpcodeTable) :
    Matched (Alike kept related) (tick table) (tick table) := by
  refine lockstep.acknowledge.bind fun _ => Matched.isHalted.bind fun halted => ?_
  cases halted with
  | true => exact .pure ()
  | false => exact (lockstep.fetch table).bind fun instruction => lockstep.run instruction

end Lockstep

-- What accesses keep of a memory, all work keeps.

theorem lockstep_of_memory [Memory μ] {kept : μ → Prop}
    (hloaded : ∀ address {memory}, kept memory → kept (Memory.load address memory).2)
    (hstored : ∀ address value {memory}, kept memory → kept (Memory.store address value memory).2) :
    Lockstep (fun _ => True) fun memory other => memory = other ∧ kept memory where
  changed _ _ := trivial
  loaded address _ _ hmemory := by
    obtain ⟨rfl, hkept⟩ := hmemory
    exact ⟨rfl, rfl, hloaded address hkept⟩
  stored address value _ _ hmemory := by
    obtain ⟨rfl, hkept⟩ := hmemory
    exact ⟨rfl, rfl, hstored address value hkept⟩

theorem kept_of_matched {kept : μ → Prop} {work : Execution μ α}
    (hwork : Matched (Alike (fun _ => True) fun memory other => memory = other ∧ kept memory)
      work work)
    {machine : Machine μ} (hkept : kept machine.memory) : kept (work machine).2.memory :=
  (hwork machine machine ⟨rfl, rfl, rfl, trivial, rfl, hkept⟩).2.memory.2

end Execution

namespace Processor

open Execution

variable {μ ν : Type} {kept : Registers → Prop} {related : μ → ν → Prop}

theorem opcodes_execute (work : Execution μ Unit) (processor : Processor) (memory : μ) :
    (processor.execute work memory).2.1.opcodes = processor.opcodes := by
  unfold execute
  split
  dsimp only
  split <;> rfl

-- Processor and memory after a piece of work, on either side: the same answer, the same
-- processor, and memories that are still related.
structure SameOutcome (kept : Registers → Prop) (related : μ → ν → Prop)
    (one : Except ProcessorError Nat × Processor × μ)
    (other : Except ProcessorError Nat × Processor × ν) : Prop where
  answer : one.1 = other.1
  processor : one.2.1 = other.2.1
  kept : kept one.2.1.registers
  memory : related one.2.2 other.2.2

theorem sameOutcome_execute {work : Execution μ Unit} {work' : Execution ν Unit}
    (hwork : Matched (Alike kept related) work work') (processor : Processor) {memory : μ}
    {other : ν} (hkept : kept processor.registers) (hrel : related memory other) :
    SameOutcome kept related (processor.execute work memory) (processor.execute work' other) := by
  obtain ⟨registers, interrupts, opcodes, cycles⟩ := processor
  obtain ⟨hanswer, hafter⟩ := hwork ⟨registers, interrupts, memory, 0⟩
    ⟨registers, interrupts, other, 0⟩ ⟨rfl, rfl, rfl, hkept, hrel⟩
  simp only [execute]
  rcases hone : work ⟨registers, interrupts, memory, 0⟩ with
    ⟨answer, registers₁, pending₁, _, cycles₁⟩
  rcases htwo : work' ⟨registers, interrupts, other, 0⟩ with
    ⟨answer', registers₂, pending₂, _, cycles₂⟩
  rw [hone, htwo] at hanswer hafter
  obtain rfl : answer = answer' := hanswer
  obtain rfl : registers₁ = registers₂ := hafter.registers
  obtain rfl : pending₁ = pending₂ := hafter.interrupts
  obtain rfl : cycles₁ = cycles₂ := hafter.cycles
  cases answer <;> exact ⟨rfl, rfl, hafter.kept, hafter.memory⟩

variable [Memory μ] [Memory ν]

theorem sameOutcome_tick (lockstep : Lockstep kept related) (processor : Processor) {memory : μ}
    {other : ν} (hkept : kept processor.registers) (hrel : related memory other) :
    SameOutcome kept related (processor.tick memory) (processor.tick other) :=
  sameOutcome_execute (lockstep.tick processor.opcodes) processor hkept hrel

theorem sameOutcome_reset (lockstep : Lockstep kept related) (processor : Processor) {memory : μ}
    {other : ν} (hkept : kept processor.registers) (hrel : related memory other) :
    SameOutcome kept related (processor.reset memory) (processor.reset other) :=
  sameOutcome_execute (lockstep.enter .reset) processor hkept hrel

end Processor

end Console816
