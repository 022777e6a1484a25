import Console816.Proofs.Interrupt
import Console816.Proofs.Processor.EntryAccesses
import Console816.Proofs.Processor.Invariants

namespace Console816

namespace Execution

variable {μ : Type} [Memory μ]

-- The half of a tick that comes after the interrupt.
def proceed (table : OpcodeTable) : Execution μ Unit := do
  unless ← isHalted do
    run (← fetch table)

theorem tick_eq (table : OpcodeTable) :
    (tick table : Execution μ Unit) = acknowledge >>= fun _ => proceed table :=
  rfl

omit [Memory μ] in
theorem isHalted_apply (machine : Machine μ) :
    isHalted machine = (.ok machine.interrupts.isHalted, machine) :=
  rfl

theorem tick_of_halted {machine : Machine μ} {interrupts : InterruptState}
    (hpoll : machine.interrupts.poll (machine.registers.p.has .irqDisable) = (none, interrupts))
    (hhalted : interrupts.isHalted = true) (table : OpcodeTable) :
    tick table machine = (.ok (), { machine with interrupts }) := by
  rw [tick_eq, bind_of_ok (acknowledge_none hpoll), proceed, bind_of_ok (isHalted_apply _), hhalted]
  rfl

theorem proceed_of_running {machine : Machine μ} (hrunning : machine.interrupts.isHalted = false)
    (table : OpcodeTable) :
    proceed table machine = (fetch table >>= fun instruction => run instruction) machine := by
  rw [proceed, bind_of_ok (isHalted_apply _), hrunning]
  rfl

-- Instructions leave the pending interrupts alone, and so do entries but that of a reset.
theorem invariant_pending (pending : UInt8) :
    Invariant fun machine : Machine μ => machine.interrupts.pending = pending where
  changed hpending _ := hpending
  charged hpending _ := hpending
  halted hpending _ _ := hpending
  loaded hpending _ := hpending
  stored hpending _ _ := hpending

theorem pending_proceed (table : OpcodeTable) (machine : Machine μ) :
    (proceed table machine).2.interrupts.pending = machine.interrupts.pending := by
  have invariant := invariant_pending (μ := μ) machine.interrupts.pending
  have hkeeps : Keeps (fun other => other.interrupts.pending = machine.interrupts.pending)
      (proceed table : Execution μ Unit) := by
    refine Keeps.isHalted.bind fun halted => ?_
    cases halted with
    | true => exact .pure ()
    | false =>
        exact (invariant.composes.fetch table).bind fun instruction =>
          invariant.composes.run instruction
  exact hkeeps machine rfl

theorem invariantWrites_interrupts (interrupts : InterruptState) :
    InvariantWrites fun machine : Machine μ => machine.interrupts = interrupts where
  charged hsame _ := hsame
  loaded hsame _ := hsame
  changed hsame _ := hsame
  stored hsame _ _ := hsame

-- A reset forgets all that is pending, and halts no longer, before it loads its vector.
theorem interrupts_enterReset (machine : Machine μ) : (enterReset machine).2.interrupts = {} := by
  have composes := (invariantWrites_interrupts (μ := μ) {}).composes
  have hkeeps : Keeps (fun other => other.interrupts = {}) (do
      modifyRegisters Registers.reset
      loadVector .reset true
      charge 7 : Execution μ Unit) :=
    (composes.modifyRegisters .reset).bind fun _ => (composes.loadVector _ _).bind fun _ =>
      composes.charge 7
  exact hkeeps { machine with interrupts := {} } rfl

theorem isPending_enter (interrupt other : Interrupt) (machine : Machine μ) :
    (enter interrupt machine).2.interrupts.isPending other =
      (machine.interrupts.isPending other && interrupt != .reset) := by
  by_cases hreset : interrupt = .reset
  · subst hreset
    simp [InterruptState.isPending, enter, interrupts_enterReset machine]
  · have composes := (invariant_pending (μ := μ) machine.interrupts.pending).composes
    have hpending := composes.enter hreset machine rfl
    simp [InterruptState.isPending, hpending, hreset]

end Execution

namespace Processor

open Execution

def isPending (processor : Processor) (interrupt : Interrupt) : Bool :=
  processor.interrupts.isPending interrupt

-- The interrupt that the next tick takes.
def taken (processor : Processor) : Option Interrupt :=
  (processor.interrupts.poll (processor.registers.p.has .irqDisable)).1

-- The machine that the next tick has then.
def polled {μ : Type} (processor : Processor) (memory : μ) : Machine μ :=
  ⟨processor.registers, (processor.interrupts.poll (processor.registers.p.has .irqDisable)).2,
    memory, 0⟩

section Tick

variable {μ : Type} [Memory μ] (processor : Processor) (memory : μ)

-- The entry that the next tick begins, as far as it gets. Without one, the tick goes on at once.
def entered : Except ProcessorError Unit × Machine μ :=
  match processor.taken with
  | none => (.ok (), processor.polled memory)
  | some interrupt => enter interrupt (processor.polled memory)

-- The interrupt that the instruction of the next tick raises by itself.
def raised : Option Interrupt :=
  match processor.entered memory with
  | (.error _, _) => none
  | (.ok _, machine) =>
    if machine.interrupts.isHalted then none
    else
      match fetch processor.opcodes machine with
      | (.error _, _) => none
      | (.ok instruction, _) =>
        match instruction.operation.mnemonic.action with
        | .raise interrupt => some interrupt
        | _ => none

variable {processor} in
theorem entered_of_taken {interrupt : Interrupt} (htaken : processor.taken = some interrupt) :
    processor.entered memory = enter interrupt (processor.polled memory) := by
  rw [entered, htaken]

-- A tick is its entry and then an instruction, and ends where the entry fails.
theorem tick_entered :
    Execution.tick processor.opcodes ⟨processor.registers, processor.interrupts, memory, 0⟩ =
      match processor.entered memory with
      | (.ok _, machine) => proceed processor.opcodes machine
      | (.error error, machine) => (.error error, machine) := by
  rw [tick_eq, bind_apply]
  unfold entered taken polled
  rcases hpoll : processor.interrupts.poll (processor.registers.p.has .irqDisable) with
    ⟨polled, interrupts⟩
  cases polled with
  | none => rw [acknowledge_none hpoll]
  | some interrupt =>
      rw [acknowledge_some hpoll]
      dsimp only
      rcases enter interrupt ⟨processor.registers, interrupts, memory, 0⟩ with ⟨answer, machine⟩
      cases answer <;> rfl

theorem isPending_entered (interrupt : Interrupt) :
    (processor.entered memory).2.interrupts.isPending interrupt =
      (processor.isPending interrupt && processor.taken != some interrupt &&
        processor.taken != some .reset) := by
  have hpoll : (processor.polled memory).interrupts.isPending interrupt =
      (processor.isPending interrupt && processor.taken != some interrupt) :=
    processor.interrupts.isPending_poll _ interrupt
  unfold entered
  cases htaken : processor.taken with
  | none =>
      rw [htaken] at hpoll
      exact hpoll.trans (Bool.and_true _).symm
  | some other =>
      rw [htaken] at hpoll
      rw [isPending_enter, hpoll]
      simp [bne]

theorem interrupts_tick : (processor.tick memory).2.1.interrupts =
    (Execution.tick processor.opcodes
      (⟨processor.registers, processor.interrupts, memory, 0⟩ : Machine μ)).2.interrupts := by
  unfold Processor.tick execute
  dsimp only
  split <;> simp [*]

theorem isPending_tick (interrupt : Interrupt) :
    (processor.tick memory).2.1.isPending interrupt =
      (processor.isPending interrupt && processor.taken != some interrupt &&
        processor.taken != some .reset) := by
  rw [← isPending_entered processor memory, isPending, interrupts_tick, tick_entered]
  rcases processor.entered memory with ⟨answer, machine⟩
  cases answer with
  | ok => simp only [InterruptState.isPending, pending_proceed]
  | error => rfl

theorem canServe_of_taken {processor : Processor} {interrupt : Interrupt}
    (htaken : processor.taken = some interrupt) :
    processor.interrupts.canServe (processor.registers.p.has .irqDisable) interrupt = true := by
  rw [taken, InterruptState.poll_fst] at htaken
  exact List.find?_some htaken

variable {processor memory} in
theorem isOk_entered {interrupt : Interrupt} (htaken : processor.taken = some interrupt) :
    (processor.entered memory).1.isOk = false ↔
      ∃ error, BreaksOff interrupt (processor.polled memory) error := by
  rw [entered_of_taken memory htaken]
  constructor
  · intro hfailed
    rcases completes_or_breaksOff interrupt (processor.polled memory) with hcompletes | hbreaks
    · obtain ⟨_, _, hanswer, -⟩ := hcompletes
      rw [hanswer] at hfailed
      cases hfailed
    · exact hbreaks
  · rintro ⟨error, _, _, hanswer, -⟩
    rw [hanswer]
    rfl

-- How the next tick serves requests.
structure InTurn : Prop where
  -- at most one is taken, the first that can be
  first : processor.taken = Interrupt.priority.find?
    (processor.interrupts.canServe (processor.registers.p.has .irqDisable))
  -- it has been made, and is no IRQ that is masked
  requested : ∀ interrupt, processor.taken = some interrupt → processor.isPending interrupt = true
  unmasked : processor.registers.p.has .irqDisable = true → processor.taken ≠ some .irq
  -- its entry comes first, and the instruction after it enters no handler but that of BRK or COP
  tick : Execution.tick processor.opcodes
      (⟨processor.registers, processor.interrupts, memory, 0⟩ : Machine μ) =
    match processor.entered memory with
    | (.ok _, machine) => proceed processor.opcodes machine
    | (.error error, machine) => (.error error, machine)
  raised : ∀ interrupt, processor.raised memory = some interrupt →
    interrupt = .brk ∨ interrupt = .cop
  -- its entry gets to its end, or the tick answers with the access that failed
  served : ∀ interrupt, processor.taken = some interrupt →
    Completes interrupt (processor.polled memory) ∨
      ∃ error, BreaksOff interrupt (processor.polled memory) error ∧
        (processor.tick memory).1 = .error (.bus error)

theorem raised_cases {interrupt : Interrupt} (hraised : processor.raised memory = some interrupt) :
    interrupt = .brk ∨ interrupt = .cop := by
  unfold raised at hraised
  split at hraised
  · cases hraised
  · split at hraised
    · cases hraised
    · split at hraised
      · cases hraised
      · split at hraised
        · rename_i haction
          cases hraised
          exact Mnemonic.raised_cases haction
        · cases hraised

theorem tick_of_error {error : ProcessorError} {machine : Machine μ}
    (hentered : processor.entered memory = (.error error, machine)) :
    (processor.tick memory).1 = .error error := by
  have htick := processor.tick_entered memory
  rw [hentered] at htick
  unfold Processor.tick execute
  simp only [htick]

theorem inTurn : processor.InTurn memory where
  first := InterruptState.poll_fst ..
  requested interrupt htaken := by
    have hserve := canServe_of_taken htaken
    simp only [InterruptState.canServe, Bool.and_eq_true] at hserve
    exact hserve.1.1
  unmasked hmasked htaken := by
    have hserve := canServe_of_taken htaken
    simp [InterruptState.canServe, hmasked] at hserve
  tick := processor.tick_entered memory
  raised _ hraised := processor.raised_cases memory hraised
  served interrupt htaken := by
    refine (completes_or_breaksOff interrupt (processor.polled memory)).imp_right ?_
    rintro ⟨error, hbreaks⟩
    have ⟨_, _, hanswer, _⟩ := hbreaks
    have hentered := entered_of_taken memory htaken
    exact ⟨error, hbreaks, processor.tick_of_error memory (hentered.trans (Prod.ext hanswer rfl))⟩

end Tick

end Processor

end Console816
