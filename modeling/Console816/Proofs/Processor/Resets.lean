import Console816.Proofs.Processor.Failures
import Console816.Proofs.Processor.Halts
import Console816.Proofs.Processor.Timing

namespace Console816

-- Whatever else is pending or halted, a reset comes first.
theorem InterruptState.poll_request_reset (state : InterruptState) (irqDisabled : Bool) :
    (state.request .reset).poll irqDisabled =
      (some .reset, { (state.request .reset).clear .reset with waiting := false }) := by
  have hpending : (state.request .reset).isPending .reset = true := by
    rw [isPending_request]
    simp
  have hnext : (state.request .reset).next irqDisabled = some .reset :=
    List.find?_cons_of_pos (by simp [hpending])
  simp [poll, hpending, hnext]

namespace Execution

variable {μ : Type}

-- The same machine, with more cycles behind it.
def Later (elapsed : Nat) (machine later : Machine μ) : Prop :=
  later = { machine with cycles := machine.cycles + elapsed }

section Memory

variable [Memory μ] (elapsed : Nat)

-- Nothing that a processor does depends on the cycles it has counted.
theorem composes_later :
    Composes fun (work : Execution μ _) (same : Execution μ _) =>
      Matched (Later elapsed) work same where
  pure := .pure
  bind := .bind
  registers := by
    rintro machine _ rfl
    exact ⟨rfl, rfl⟩
  charge cycles := by
    rintro machine _ rfl
    refine ⟨rfl, ?_⟩
    change ({ machine with cycles := machine.cycles + elapsed + cycles } : Machine μ) =
      { machine with cycles := machine.cycles + cycles + elapsed }
    rw [Nat.add_right_comm]
  loadByte address := by
    rintro machine _ rfl
    unfold loadByte
    rcases Memory.load address machine.memory with ⟨answer, memory⟩
    cases answer <;> exact ⟨rfl, rfl⟩
  modifyRegisters _ := by
    rintro machine _ rfl
    exact ⟨rfl, rfl⟩
  storeByte address value := by
    rintro machine _ rfl
    unfold storeByte
    rcases Memory.store address value machine.memory with ⟨answer, memory⟩
    cases answer <;> exact ⟨rfl, rfl⟩
  throw := .throw
  waits := by
    rintro machine _ rfl
    exact ⟨rfl, rfl⟩
  stops := by
    rintro machine _ rfl
    exact ⟨rfl, rfl⟩

theorem later_proceed (table : OpcodeTable) :
    Matched (Later elapsed) (proceed table : Execution μ Unit) (proceed table) := by
  have composes := composes_later (μ := μ) elapsed
  refine Matched.bind (fun machine later hlater => ?_) fun halted => ?_
  · obtain rfl := hlater
    exact ⟨rfl, rfl⟩
  · cases halted with
    | true => exact .pure ()
    | false => exact (composes.fetch table).bind fun instruction => composes.run instruction

-- A reset forgets the interrupts, so it does not matter what they were.

theorem enterReset_interrupts (machine : Machine μ) (interrupts : InterruptState) :
    enterReset { machine with interrupts } = enterReset machine := by
  rw [enterReset, bind_apply, bind_apply]
  rfl

theorem tick_request_reset (table : OpcodeTable) (machine : Machine μ) :
    tick table { machine with interrupts := machine.interrupts.request .reset } =
      (enter .reset >>= fun _ => proceed table) machine := by
  have hpoll := machine.interrupts.poll_request_reset (machine.registers.p.has .irqDisable)
  have htaken := @acknowledge_some _ _
    { machine with interrupts := machine.interrupts.request .reset } _ _ hpoll
  rw [tick_eq, bind_apply, htaken, bind_apply]
  simp only [enter, enterReset_interrupts]
  rcases enterReset machine with ⟨answer, entered⟩
  cases answer <;> rfl

-- After the reset there is nothing to enter.
theorem tick_of_quiet (table : OpcodeTable) (machine : Machine μ)
    (hquiet : machine.interrupts = {}) : tick table machine = proceed table machine := by
  have hpoll : machine.interrupts.poll (machine.registers.p.has .irqDisable) =
      (none, machine.interrupts) := by
    rw [hquiet]
    exact InterruptState.poll_of_quiet (fun interrupt => by cases interrupt <;> rfl) _
  exact bind_of_ok (acknowledge_none hpoll)

theorem accesses_tick_request_reset (table : OpcodeTable) (machine : Machine μ) :
    accesses (tick table) { machine with interrupts := machine.interrupts.request .reset } =
      accesses (enter .reset >>= fun _ => proceed table) machine := by
  rw [accesses_eq, accesses_eq, ← tick_request_reset]
  rfl

theorem accesses_tick_of_quiet (table : OpcodeTable) (machine : Machine μ)
    (hquiet : machine.interrupts = {}) :
    accesses (tick table) machine = accesses (proceed table) machine := by
  rw [accesses_eq, accesses_eq, tick_of_quiet table machine.logged hquiet]

end Memory

theorem accesses_later [Memory μ] {elapsed : Nat} {work : Execution (AccessLog μ) Unit}
    (hwork : Matched (Later elapsed) work work) {machine later : Machine μ}
    (hlater : Later elapsed machine later) : accesses work later = accesses work machine := by
  obtain rfl := hlater
  have hafter : (work { machine.logged with cycles := machine.logged.cycles + elapsed }).2 =
      { (work machine.logged).2 with cycles := (work machine.logged).2.cycles + elapsed } :=
    (hwork machine.logged _ rfl).2
  rw [accesses_eq, accesses_eq]
  exact congrArg (·.memory.accesses.toList) hafter

end Execution

namespace Processor

open Execution

-- A reset and the tick after it, beside the tick for which a reset has been requested. Either the
-- vector cannot be loaded, and both fail alike, or the tick has the cycles of the reset in it.
inductive ResetsAlike (processor : Processor) {μ : Type} [Memory μ] (memory : μ) : Prop
  | failed {error : ProcessorError} {after : Processor} {left : μ}
      (hreset : processor.reset memory = (.error error, after, left))
      (hrequested : (processor.request .reset).tick memory = (.error error, after, left))
      (haccesses : accesses (Execution.tick processor.opcodes)
          ((processor.request .reset).machine memory) =
        accesses (enter .reset) (processor.machine memory))
  | completed {ready after : Processor} {middle left : μ} {count : Nat}
      (hreset : processor.reset memory = (.ok 7, ready, middle))
      (htick : ready.tick middle = (.ok count, after, left))
      (hrequested : (processor.request .reset).tick memory = (.ok (7 + count), after, left))
      (haccesses : accesses (Execution.tick processor.opcodes)
          ((processor.request .reset).machine memory) =
        accesses (enter .reset) (processor.machine memory) ++
          accesses (Execution.tick ready.opcodes) (ready.machine middle))
  -- a tick that fails in its instruction does not count the reset either
  | stopped {ready after : Processor} {middle left : μ} {error : ProcessorError}
      (hreset : processor.reset memory = (.ok 7, ready, middle))
      (htick : ready.tick middle = (.error error, after, left))
      (hrequested : (processor.request .reset).tick memory =
        (.error error, { after with cycles := processor.cycles }, left))
      (haccesses : accesses (Execution.tick processor.opcodes)
          ((processor.request .reset).machine memory) =
        accesses (enter .reset) (processor.machine memory) ++
          accesses (Execution.tick ready.opcodes) (ready.machine middle))

variable {μ : Type} [Memory μ] {processor : Processor} {memory : μ} {entered : Machine μ}

-- The processor after a reset, which goes on with the memory that the reset leaves.
def afterReset (processor : Processor) (entered : Machine μ) : Processor :=
  ⟨entered.registers, {}, processor.opcodes, processor.cycles + 7⟩

section Completed

variable (hentered : enter .reset (processor.machine memory) = (.ok (), entered))
include hentered

-- The tick in which a reset is entered has its cycles behind it already.
theorem later_of_reset :
    Later 7 ((processor.afterReset entered).machine entered.memory) entered := by
  have hcycles : entered.cycles = 0 + 7 := Costs.enter .reset _ _ _ rfl hentered
  have hinterrupts : entered.interrupts = {} :=
    (congrArg (·.2.interrupts) hentered).symm.trans (interrupts_enterReset _)
  obtain ⟨registers, interrupts, memory, cycles⟩ := entered
  obtain rfl := hinterrupts
  obtain rfl := hcycles
  rfl

theorem reset_of_entered :
    processor.reset memory = (.ok 7, processor.afterReset entered, entered.memory) := by
  rw [reset, execute_of_ok hentered, later_of_reset hentered]
  rfl

theorem tick_of_entered :
    Execution.tick processor.opcodes ((processor.request .reset).machine memory) =
      proceed processor.opcodes entered :=
  (tick_request_reset processor.opcodes (processor.machine memory)).trans (bind_of_ok hentered)

theorem accesses_of_entered :
    accesses (Execution.tick processor.opcodes) ((processor.request .reset).machine memory) =
      accesses (enter .reset) (processor.machine memory) ++
        accesses (Execution.tick processor.opcodes)
          ((processor.afterReset entered).machine entered.memory) := by
  have hquiet := accesses_tick_of_quiet processor.opcodes
    ((processor.afterReset entered).machine entered.memory) rfl
  have hlater := accesses_later (later_proceed 7 processor.opcodes) (later_of_reset hentered)
  rw [hquiet, ← hlater, ← accesses_bind_of_ok (lockstep_log.enter .reset)
    (fun _ before => (lockstep_appended before).proceed processor.opcodes) hentered]
  exact accesses_tick_request_reset processor.opcodes (processor.machine memory)

end Completed

theorem tick_of_failed {error : ProcessorError}
    (hentered : enter .reset (processor.machine memory) = (.error error, entered)) :
    (processor.request .reset).tick memory = processor.reset memory ∧
      accesses (Execution.tick processor.opcodes) ((processor.request .reset).machine memory) =
        accesses (enter .reset) (processor.machine memory) := by
  have htick : Execution.tick processor.opcodes ((processor.request .reset).machine memory) =
      (.error error, entered) := by
    refine (tick_request_reset processor.opcodes (processor.machine memory)).trans ?_
    rw [bind_apply, hentered]
  refine ⟨(execute_of_error htick).trans (execute_of_error hentered).symm, ?_⟩
  exact (accesses_tick_request_reset processor.opcodes (processor.machine memory)).trans
    (accesses_bind_of_error (lockstep_log.enter .reset) hentered)

-- The tick after a reset, beside the one with the reset in it.
theorem ticks_of_entered
    (hentered : enter .reset (processor.machine memory) = (.ok (), entered)) :
    ∃ answer after,
      Execution.tick processor.opcodes
          ((processor.afterReset entered).machine entered.memory) = (answer, after) ∧
        Execution.tick processor.opcodes ((processor.request .reset).machine memory) =
          (answer, { after with cycles := after.cycles + 7 }) := by
  have hready := tick_of_quiet processor.opcodes
    ((processor.afterReset entered).machine entered.memory) rfl
  obtain ⟨hanswer, hafter⟩ :=
    later_proceed 7 processor.opcodes _ _ (later_of_reset hentered)
  refine ⟨_, _, hready, ?_⟩
  rw [tick_of_entered hentered]
  exact Prod.ext hanswer.symm hafter

-- It makes no difference whether a reset is made at once or requested, whatever is pending and
-- however the processor is halted.
theorem resetsAlike (processor : Processor) (memory : μ) : processor.ResetsAlike memory := by
  rcases hentered : enter .reset (processor.machine memory) with ⟨answer, entered⟩
  cases answer with
  | error error =>
      obtain ⟨hsame, haccesses⟩ := tick_of_failed hentered
      have hreset := execute_of_error hentered
      exact .failed hreset (hsame.trans hreset) haccesses
  | ok =>
      obtain ⟨answer, after, hready, hrequested⟩ := ticks_of_entered hentered
      have hreset := reset_of_entered hentered
      have haccesses := accesses_of_entered hentered
      cases answer with
      | error error =>
          have hstopped := execute_of_error hrequested
          exact .stopped hreset (execute_of_error hready) hstopped haccesses
      | ok =>
          have hcompleted := execute_of_ok hrequested
          have hcycles : processor.cycles + (after.cycles + 7).toUInt64 =
              processor.cycles + 7 + after.cycles.toUInt64 := by
            rw [Nat.add_comm, UInt64.add_assoc]
            exact congrArg (processor.cycles + ·) (UInt64.ofNat_add 7 after.cycles)
          rw [show (processor.request .reset).cycles = processor.cycles from rfl, hcycles,
            Nat.add_comm] at hcompleted
          exact .completed hreset (execute_of_ok hready) hcompleted haccesses

-- A processor that has stopped, with an NMI pending, goes on at the vector of the reset.
example :
    ((({ powerOn with interrupts := ⟨Interrupt.nmi.mask, false, true⟩ } : Processor).request
      .reset).tick (⟨fun _ => 0xEA⟩ : FlatMemory)).2.1.registers.pc = 0xEAEB := by
  decide +kernel

end Processor

end Console816
