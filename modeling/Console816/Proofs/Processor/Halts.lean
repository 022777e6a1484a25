import Console816.Proofs.Processor.Cycles
import Console816.Proofs.Processor.Requests

namespace Console816

namespace InterruptState

theorem isPending_foldl_request (state : InterruptState) (requests : List Interrupt)
    (interrupt : Interrupt) :
    (requests.foldl request state).isPending interrupt =
      (state.isPending interrupt || requests.contains interrupt) := by
  induction requests generalizing state with
  | nil => simp
  | cons other rest ih =>
      rw [List.foldl_cons, ih, isPending_request, List.contains_cons, Bool.or_assoc]

theorem stopped_foldl_request (state : InterruptState) (requests : List Interrupt) :
    (requests.foldl request state).stopped = state.stopped := by
  induction requests generalizing state with
  | nil => rfl
  | cons other rest ih => exact ih (state.request other)

-- A stopped processor polls in vain, and so does one for which nothing is pending.

theorem poll_of_stopped {state : InterruptState} (hstopped : state.stopped = true)
    (hreset : state.isPending .reset = false) (irqDisabled : Bool) :
    state.poll irqDisabled = (none, state) := by
  simp [poll, hstopped, hreset]

theorem poll_of_quiet {state : InterruptState}
    (hquiet : ∀ interrupt, state.isPending interrupt = false) (irqDisabled : Bool) :
    state.poll irqDisabled = (none, state) := by
  have hnext : state.next irqDisabled = none := by
    simp [next, hquiet]
  simp [poll, hnext, hquiet]

-- Anything that is pending ends the wait, a masked IRQ as well.
theorem waiting_poll {state : InterruptState} (hrunning : state.stopped = false)
    {interrupt : Interrupt} (hpending : state.isPending interrupt = true) (irqDisabled : Bool) :
    (state.poll irqDisabled).2.waiting = false := by
  simp only [poll, hrunning, Bool.false_and, Bool.false_eq_true, if_false]
  cases hnext : state.next irqDisabled with
  | some taken => rfl
  | none =>
      have hleft := List.find?_eq_none.mp hnext interrupt (by cases interrupt <;> decide)
      rw [hpending] at hleft
      -- nothing was taken, so the one that is pending is an IRQ
      have hirq : interrupt = .irq := by
        simp at hleft
        exact hleft.1
      rw [hirq] at hpending
      simp [hpending]

theorem stopped_poll (state : InterruptState) (irqDisabled : Bool) :
    (state.poll irqDisabled).2.stopped = state.stopped := by
  unfold poll
  split
  · rfl
  · split <;> rfl

end InterruptState

namespace Execution

variable {μ : Type} [Memory μ]

-- Decoding an operand reads bytes and leaves the registers alone.

theorem invariantReads_registers (kept : Registers → Prop) :
    InvariantReads fun machine : Machine μ => kept machine.registers where
  charged hkept _ := hkept
  loaded hkept _ := hkept

theorem fetch_ok {table : OpcodeTable} {machine fetched : Machine μ} {instruction : Instruction}
    (hfetch : fetch table machine = (.ok instruction, fetched)) :
    (∃ opcode, table.get? opcode = some instruction.operation) ∧
      fetched.registers = { machine.registers with
        pc := machine.registers.pc +
          (instruction.operation.size machine.registers.p).toUInt16 } := by
  rw [fetch, registers_bind_apply] at hfetch
  obtain ⟨opcode, opened, hload, hfetch⟩ := of_bind_ok hfetch
  have composes := (invariantReads_registers (μ := μ) (· = machine.registers)).composes
  have hopened := composes.loadByte ⟨machine.registers.k, machine.registers.pc⟩ machine rfl
  rw [hload] at hopened
  cases hget : table.get? opcode with
  | none =>
      simp only [hget] at hfetch
      cases hfetch
  | some operation =>
      simp only [hget] at hfetch
      obtain ⟨operand, decoded, hdecode, hfetch⟩ := of_bind_ok hfetch
      have hdecoded := composes.decodeOperand ⟨machine.registers.k, machine.registers.pc⟩
        operation.mode opened hopened
      rw [hdecode] at hdecoded
      cases hfetch
      exact ⟨⟨opcode, hget⟩, congrArg (fun r : Registers => { r with
        pc := machine.registers.pc + (operation.size machine.registers.p).toUInt16 }) hdecoded⟩

-- What the machine satisfies after the work has succeeded, however it began.
def Establishes {α : Type} (kept : Machine μ → Prop) (work : Execution μ α) : Prop :=
  ∀ machine value after, work machine = (.ok value, after) → kept after

section Establishes

variable {α β : Type} {kept : Machine μ → Prop} {first : Execution μ α} {next : α → Execution μ β}

omit [Memory μ]

theorem Establishes.bind (hnext : ∀ value, Establishes kept (next value)) :
    Establishes kept (first >>= next) := by
  intro machine result after hbind
  obtain ⟨value, between, -, hrest⟩ := of_bind_ok hbind
  exact hnext value between result after hrest

theorem Establishes.bind_keeps (hfirst : Establishes kept first)
    (hnext : ∀ value, Keeps kept (next value)) : Establishes kept (first >>= next) := by
  intro machine result after hbind
  obtain ⟨value, between, hone, hrest⟩ := of_bind_ok hbind
  have hafter := hnext value between (hfirst machine value between hone)
  rwa [hrest] at hafter

theorem Establishes.modifyRegisters {kept : Registers → Prop} {change : Registers → Registers}
    (hchange : ∀ r, kept (change r)) :
    Establishes (fun machine => kept machine.registers)
      (modifyRegisters change : Execution μ Unit) := by
  intro machine value after hmodify
  cases hmodify
  exact hchange machine.registers

end Establishes

-- Entries mask IRQ.

def Masked (r : Registers) : Prop := r.p.has .irqDisable = true

theorem masked_loadVector (interrupt : Interrupt) (emulation : Bool) :
    Keeps (fun machine => Masked machine.registers)
      (loadVector interrupt emulation : Execution μ Unit) :=
  ((invariantReads_registers Masked).composes.loadWord _).bind fun _ _ hmasked => hmasked

theorem masked_enterReset :
    Establishes (fun machine => Masked machine.registers) (enterReset : Execution μ Unit) := by
  have hreset (r : Registers) : Masked r.reset := by
    simp only [Masked, Registers.reset]
    decide
  exact Establishes.bind fun _ => (Establishes.modifyRegisters hreset).bind_keeps fun _ =>
    (masked_loadVector _ _).bind fun _ _ hmasked => hmasked

theorem masked_enterHandler (interrupt : Interrupt) :
    Establishes (fun machine => Masked machine.registers)
      (enterHandler interrupt : Execution μ Unit) := by
  have hhandler (r : Registers) :
      Masked { r with p := (r.p.put .irqDisable true).put .decimal false, k := 0 } := by
    simp [Masked, Status.has_put_of_ne _ _ (show Flag.irqDisable ≠ .decimal by decide)]
  refine Establishes.bind fun r => ?_
  have hrest (cycles : Nat) : Establishes (fun machine => Masked machine.registers) (do
      pushWord r.pc
      pushByte (pushedStatus interrupt r)
      modifyRegisters fun r =>
        { r with p := (r.p.put .irqDisable true).put .decimal false, k := 0 }
      loadVector interrupt r.emulation
      charge cycles : Execution μ Unit) :=
    Establishes.bind fun _ => Establishes.bind fun _ =>
      (Establishes.modifyRegisters hhandler).bind_keeps fun _ =>
        (masked_loadVector _ _).bind fun _ _ hmasked => hmasked
  dsimp only
  split
  · exact hrest 7
  · exact Establishes.bind fun _ => hrest 8

theorem masked_enter (interrupt : Interrupt) :
    Establishes (fun machine => Masked machine.registers)
      (enter interrupt : Execution μ Unit) := by
  cases interrupt with
  | reset => exact masked_enterReset
  | nmi | abort | irq | brk | cop => exact masked_enterHandler _

-- With IRQ masked, no instruction begins a wait.

theorem invariantWrites_awake :
    InvariantWrites fun machine : Machine μ => machine.interrupts.waiting = false where
  charged hawake _ := hawake
  loaded hawake _ := hawake
  changed hawake _ := hawake
  stored hawake _ _ := hawake

theorem run_awake (instruction : Instruction) {machine : Machine μ}
    (hawake : machine.interrupts.waiting = false) (hmasked : Masked machine.registers) :
    (run instruction machine).2.interrupts.waiting = false := by
  have composes := (invariantWrites_awake (μ := μ)).composes
  cases haction : instruction.operation.mnemonic.action with
  | wait =>
      -- the only one that could
      have hwait : run instruction machine =
          (wait : Execution μ Unit) { machine with
            cycles := machine.cycles + baseCycles instruction.operation } := by
        rw [run, haction]
        rfl
      rw [hwait, wait, registers_bind_apply]
      simp only [show machine.registers.p.has .irqDisable = true from hmasked]
      exact hawake
  | _ =>
      refine composes.run instruction ?_ ?_ machine hawake
      · exact fun hwait => absurd (haction.symm.trans hwait) nofun
      · exact fun _ _ hawake => hawake

theorem proceed_awake {machine : Machine μ} (hawake : machine.interrupts.waiting = false)
    (hmasked : Masked machine.registers) (table : OpcodeTable) :
    (proceed table machine).2.interrupts.waiting = false := by
  cases hhalted : machine.interrupts.isHalted with
  | true =>
      rw [proceed, bind_of_ok (isHalted_apply machine), hhalted]
      exact hawake
  | false =>
      have hfetched := (invariantWrites_awake (μ := μ)).composes.fetch table machine hawake
      rw [proceed_of_running hhalted, bind_apply]
      rcases hfetch : fetch table machine with ⟨answer, fetched⟩
      rw [hfetch] at hfetched
      cases answer with
      | error error => exact hfetched
      | ok instruction =>
          refine run_awake instruction hfetched ?_
          rw [(fetch_ok hfetch).2]
          exact hmasked

-- WAI goes past itself, and waits unless that would be for an IRQ that is masked.
theorem run_wait {table : OpcodeTable} {machine fetched : Machine μ} {instruction : Instruction}
    (hfetch : fetch table machine = (.ok instruction, fetched))
    (hwait : instruction.operation.mnemonic.action = .wait) :
    let r := machine.registers
    ∃ after, run instruction fetched = (.ok (), after) ∧
      after.registers = { r with pc := r.pc + (instruction.operation.size r.p).toUInt16 } ∧
      after.interrupts.waiting = (fetched.interrupts.waiting || !r.p.has .irqDisable) := by
  intro r
  have hregisters := (fetch_ok hfetch).2
  have hrun : run instruction fetched = (wait : Execution μ Unit) { fetched with
      cycles := fetched.cycles + baseCycles instruction.operation } := by
    rw [run, hwait]
    rfl
  rw [hrun, wait, registers_bind_apply, hregisters]
  cases r.p.has .irqDisable with
  | true => exact ⟨_, rfl, rfl, (Bool.or_false _).symm⟩
  | false => exact ⟨_, rfl, rfl, (Bool.or_true _).symm⟩

end Execution

namespace Processor

open Execution

variable {μ : Type} [Memory μ]

-- A tick that takes no time, changes nothing and does not look at memory.
structure Idle (processor : Processor) (memory : μ) : Prop where
  tick : processor.tick memory = (.ok 0, processor, memory)
  silent : accesses (Execution.tick processor.opcodes)
    (⟨processor.registers, processor.interrupts, memory, 0⟩ : Machine μ) = []

theorem idle_of_halted {processor : Processor}
    (hpoll : processor.interrupts.poll (processor.registers.p.has .irqDisable) =
      (none, processor.interrupts))
    (hhalted : processor.isHalted = true) (memory : μ) : processor.Idle memory where
  tick := by
    obtain ⟨registers, interrupts, opcodes, cycles⟩ := processor
    have htick : Execution.tick opcodes ⟨registers, interrupts, memory, 0⟩ =
        (.ok (), ⟨registers, interrupts, memory, 0⟩) := tick_of_halted hpoll hhalted opcodes
    have hcycles : cycles + Nat.toUInt64 0 = cycles := UInt64.add_zero cycles
    simp only [Processor.tick, execute, htick, hcycles]
  silent := by
    have htick : Execution.tick processor.opcodes
        (⟨processor.registers, processor.interrupts, ⟨memory, #[]⟩, 0⟩ : Machine (AccessLog μ)) =
          (.ok (), ⟨processor.registers, processor.interrupts, ⟨memory, #[]⟩, 0⟩) :=
      tick_of_halted hpoll hhalted processor.opcodes
    rw [accesses, htick]

-- STP. Requests for anything but a reset are noted and wait.

-- All that has changed is what is pending.
structure StaysStopped (processor reached : Processor) : Prop where
  registers : reached.registers = processor.registers
  cycles : reached.cycles = processor.cycles
  stopped : reached.interrupts.stopped = true
  reset : reached.isPending .reset = false

theorem StaysStopped.idle {processor reached : Processor}
    (hstays : processor.StaysStopped reached) (memory : μ) : reached.Idle memory := by
  have hpoll := InterruptState.poll_of_stopped hstays.stopped hstays.reset
  refine idle_of_halted (hpoll _) ?_ memory
  rw [isHalted, InterruptState.isHalted, hstays.stopped, Bool.or_true]

theorem StaysStopped.apply {processor reached : Processor} {event : Event μ} {memory : μ}
    (hstays : processor.StaysStopped reached) (hevent : event ≠ .request .reset) :
    processor.StaysStopped (event.command.apply reached memory).1 := by
  cases event with
  | exchange other => exact hstays
  | tick =>
      have hidle := (hstays.idle memory).tick
      simp only [Event.command, Command.apply, hidle]
      exact hstays
  | request interrupt =>
      have hne : interrupt ≠ .reset := fun h => hevent (congrArg Event.request h)
      have hreset := reached.interrupts.isPending_request interrupt .reset
      have hstill : reached.interrupts.isPending .reset = false := hstays.reset
      exact { hstays with
        reset := hreset.trans (by simp [hstill, hne.symm]) }

theorem staysStopped_after {processor : Processor} (hstopped : processor.interrupts.stopped = true)
    (hreset : processor.isPending .reset = false) (memory : μ) (events : List (Event μ))
    (hevents : .request .reset ∉ events) :
    processor.StaysStopped (processor.after memory events).1 := by
  have hrun : ∀ {reached : Processor} {memory : μ}, processor.StaysStopped reached →
      processor.StaysStopped (reached.after memory events).1 := by
    induction events with
    | nil => exact fun hstays => hstays
    | cons event rest ih =>
        intro reached memory hstays
        have hevent : event ≠ .request .reset := fun h =>
          hevents (h ▸ List.mem_cons_self)
        exact ih (fun hmem => hevents (List.mem_cons_of_mem _ hmem)) (hstays.apply hevent)
  exact hrun ⟨rfl, rfl, hstopped, hreset⟩

-- WAI. With nothing pending, nothing happens.

def Quiet (processor : Processor) : Prop := ∀ interrupt, processor.isPending interrupt = false

theorem idle_of_waiting {processor : Processor} (hwaiting : processor.interrupts.waiting = true)
    (hquiet : processor.Quiet) (memory : μ) : processor.Idle memory := by
  refine idle_of_halted (InterruptState.poll_of_quiet hquiet _) ?_ memory
  rw [isHalted, InterruptState.isHalted, hwaiting, Bool.true_or]

theorem after_of_waiting {processor : Processor} (hwaiting : processor.interrupts.waiting = true)
    (hquiet : processor.Quiet) (memory : μ) (events : List (Event μ))
    (hevents : ∀ interrupt, .request interrupt ∉ events) :
    (processor.after memory events).1 = processor := by
  induction events generalizing memory with
  | nil => rfl
  | cons event rest ih =>
      have hrest (memory : μ) : (processor.after memory rest).1 = processor :=
        ih memory fun interrupt hmem => hevents interrupt (List.mem_cons_of_mem _ hmem)
      cases event with
      | exchange other => exact hrest other
      | request interrupt => exact absurd List.mem_cons_self (hevents interrupt)
      | tick =>
          have hidle := (idle_of_waiting hwaiting hquiet memory).tick
          have hfirst : (processor.after memory (.tick :: rest)).1 =
              ((processor.tick memory).2.1.after (processor.tick memory).2.2 rest).1 := rfl
          rw [hfirst, hidle]
          exact hrest memory

-- The first tick after requests to a waiting processor. It enters the handler of the first that can
-- be served. When all it got is an IRQ that is masked, it goes on with the instruction after the
-- WAI.
structure WakesUp (requests : List Interrupt) (woken : Processor) (memory : μ) : Prop where
  first : woken.taken = Interrupt.priority.find? fun interrupt =>
    requests.contains interrupt &&
      !(interrupt == .irq && woken.registers.p.has .irqDisable)
  enters : ∀ interrupt, woken.taken = some interrupt →
    Execution.tick woken.opcodes (⟨woken.registers, woken.interrupts, memory, 0⟩ : Machine μ) =
        (enter interrupt >>= fun _ => proceed woken.opcodes) (woken.polled memory) ∧
      (Completes interrupt (woken.polled memory) ∨
        ∃ error, BreaksOff interrupt (woken.polled memory) error ∧
          (woken.tick memory).1 = .error (.bus error))
  resumes : woken.taken = none →
    (∀ interrupt ∈ requests, interrupt = .irq) ∧ Masked woken.registers ∧
      Execution.tick woken.opcodes (⟨woken.registers, woken.interrupts, memory, 0⟩ : Machine μ) =
        (fetch woken.opcodes >>= fun instruction => Execution.run instruction)
          (woken.polled memory)
  awake : (woken.tick memory).2.1.interrupts.waiting = false

omit [Memory μ] in
theorem foldl_request (processor : Processor) (requests : List Interrupt) :
    requests.foldl request processor =
      { processor with
        interrupts := requests.foldl InterruptState.request processor.interrupts } := by
  induction requests generalizing processor with
  | nil => rfl
  | cons other rest ih => exact ih (processor.request other)

theorem awake_entered {woken : Processor} {memory : μ}
    (hawake : (woken.polled memory).interrupts.waiting = false) :
    (woken.entered memory).2.interrupts.waiting = false := by
  have composes := (invariantWrites_awake (μ := μ)).composes
  unfold entered
  split
  · exact hawake
  · exact composes.enterAny (fun _ _ => rfl) _ (woken.polled memory) hawake

theorem wakesUp {woken : Processor} {requests : List Interrupt}
    (hrunning : woken.interrupts.stopped = false) (hrequests : requests ≠ [])
    (hpending : ∀ interrupt, woken.isPending interrupt = requests.contains interrupt)
    (memory : μ) : woken.WakesUp requests memory := by
  have hserve : woken.interrupts.canServe (woken.registers.p.has .irqDisable) =
      fun interrupt => requests.contains interrupt &&
        !(interrupt == .irq && woken.registers.p.has .irqDisable) := by
    funext interrupt
    have hpending : woken.interrupts.isPending interrupt = requests.contains interrupt :=
      hpending interrupt
    simp [InterruptState.canServe, hrunning, hpending]
  have hfirst : woken.taken = Interrupt.priority.find? fun interrupt =>
      requests.contains interrupt &&
        !(interrupt == .irq && woken.registers.p.has .irqDisable) := by
    rw [(woken.inTurn memory).first, hserve]
  obtain ⟨one, hmem⟩ := List.exists_mem_of_ne_nil requests hrequests
  have hawake : (woken.polled memory).interrupts.waiting = false := by
    have hone : woken.interrupts.isPending one = true :=
      (hpending one).trans (List.contains_iff_mem.mpr hmem)
    exact InterruptState.waiting_poll hrunning hone _
  have hmasked (hnone : woken.taken = none) (interrupt : Interrupt) (hmem : interrupt ∈ requests) :
      interrupt = .irq ∧ Masked woken.registers := by
    have hleft := List.find?_eq_none.mp (hfirst.symm.trans hnone) interrupt
      (by cases interrupt <;> decide)
    simpa [hmem, Masked] using hleft
  refine ⟨hfirst, fun interrupt htaken => ⟨?_, ?_⟩, fun hnone => ?_, ?_⟩
  · rw [tick_entered, entered_of_taken memory htaken, bind_apply]
    rcases enter interrupt (woken.polled memory) with ⟨answer, machine⟩
    cases answer <;> rfl
  · exact (woken.inTurn memory).served interrupt htaken
  · have hhalted : (woken.polled memory).interrupts.isHalted = false := by
      rw [InterruptState.isHalted, hawake, Bool.false_or]
      exact (InterruptState.stopped_poll ..).trans hrunning
    refine ⟨fun interrupt hmem => (hmasked hnone interrupt hmem).1, (hmasked hnone one hmem).2, ?_⟩
    rw [tick_entered, entered, hnone]
    exact proceed_of_running hhalted _
  · have hentered := awake_entered hawake
    rw [interrupts_tick, tick_entered]
    rcases hmachine : woken.entered memory with ⟨answer, machine⟩
    rw [hmachine] at hentered
    cases answer with
    | error error => exact hentered
    | ok =>
        refine proceed_awake hentered ?_ _
        cases htaken : woken.taken with
        | none =>
            rw [entered, htaken] at hmachine
            cases hmachine
            exact (hmasked htaken one hmem).2
        | some interrupt =>
            rw [entered_of_taken memory htaken] at hmachine
            exact masked_enter interrupt _ _ _ hmachine

-- Cycles. A tick that takes none has found the processor halted.

theorem answer_tick (processor : Processor) (memory : μ) :
    (processor.tick memory).1 =
      match Execution.tick processor.opcodes
        (⟨processor.registers, processor.interrupts, memory, 0⟩ : Machine μ) with
      | (.ok _, machine) => .ok machine.cycles
      | (.error error, _) => .error error := by
  obtain ⟨registers, interrupts, opcodes, cycles⟩ := processor
  simp only [Processor.tick, execute]
  rcases Execution.tick opcodes ⟨registers, interrupts, memory, 0⟩ with ⟨answer, machine⟩
  cases answer <;> rfl

theorem spends_of_running {opcodes : OpcodeTable} (hstandard : opcodes = .standard)
    {machine after : Machine μ} (hrunning : machine.interrupts.isHalted = false)
    (hproceed : proceed opcodes machine = (.ok (), after)) : machine.cycles < after.cycles := by
  rw [proceed_of_running hrunning] at hproceed
  obtain ⟨instruction, fetched, hfetch, hrun⟩ := of_bind_ok hproceed
  obtain ⟨opcode, hget⟩ := (fetch_ok hfetch).1
  have hcount := (Counts.composes.fetch opcodes).le machine
  rw [hfetch] at hcount
  rw [hstandard] at hget
  exact Nat.lt_of_le_of_lt hcount (Spends.run (OpcodeTable.cycles_pos hget) _ _ _ hrun)

theorem counts_proceed (table : OpcodeTable) : Counts (proceed table : Execution μ Unit) := by
  intro count
  refine Keeps.isHalted.bind fun halted => ?_
  have composes := Counts.composes (μ := μ)
  cases halted with
  | true => exact .pure ()
  | false =>
      exact (composes.fetch table count).bind fun instruction => composes.run instruction count

-- An entry takes time, and so does an instruction.
theorem cycles_pos_tick {processor : Processor} (hstandard : processor.opcodes = .standard)
    {memory : μ} {after : Machine μ}
    (htick : Execution.tick processor.opcodes
      ⟨processor.registers, processor.interrupts, memory, 0⟩ = (.ok (), after))
    (hbusy : processor.taken = none → (processor.polled memory).interrupts.isHalted = false) :
    0 < after.cycles := by
  rw [tick_entered] at htick
  cases htaken : processor.taken with
  | none =>
      rw [entered, htaken] at htick
      exact spends_of_running hstandard (hbusy htaken) htick
  | some interrupt =>
      rw [entered_of_taken memory htaken] at htick
      rcases hentered : enter interrupt (processor.polled memory) with ⟨answer, machine⟩
      rw [hentered] at htick
      cases answer with
      | error error => cases htick
      | ok =>
          have hspent := Spends.enter interrupt _ _ _ hentered
          have hcount := (counts_proceed processor.opcodes).le machine
          rw [show proceed processor.opcodes machine = (.ok (), after) from htick] at hcount
          exact Nat.lt_of_lt_of_le (Nat.zero_lt_of_lt hspent) hcount

theorem tick_eq_zero_iff {processor : Processor} (hstandard : processor.opcodes = .standard)
    (memory : μ) :
    (processor.tick memory).1 = .ok 0 ↔
      processor.taken = none ∧ (processor.polled memory).interrupts.isHalted = true := by
  rw [answer_tick]
  constructor
  · intro hzero
    rcases htick : Execution.tick processor.opcodes
      (⟨processor.registers, processor.interrupts, memory, 0⟩ : Machine μ) with ⟨answer, after⟩
    rw [htick] at hzero
    cases answer with
    | error error => cases hzero
    | ok =>
        have hnone : after.cycles = 0 := Except.ok.inj hzero
        refine Classical.byContradiction fun hbusy => ?_
        have hpos := cycles_pos_tick hstandard htick fun htaken =>
          (Bool.not_eq_true _).mp fun hhalted => hbusy ⟨htaken, hhalted⟩
        omega
  · rintro ⟨hnone, hhalted⟩
    have hpoll : processor.interrupts.poll (processor.registers.p.has .irqDisable) =
        (none, (processor.polled memory).interrupts) := Prod.ext hnone rfl
    have htick : Execution.tick processor.opcodes
        (⟨processor.registers, processor.interrupts, memory, 0⟩ : Machine μ) =
          (.ok (), processor.polled memory) := tick_of_halted hpoll hhalted processor.opcodes
    rw [htick]
    rfl

-- A reset that is pending is taken first, and ends both halts whatever its vector holds.
theorem reset_ends_halts {processor : Processor} (hreset : processor.isPending .reset = true)
    (memory : μ) :
    processor.taken = some .reset ∧ (processor.entered memory).2.interrupts = {} := by
  have hserve : processor.interrupts.canServe (processor.registers.p.has .irqDisable) .reset =
      true := by
    have hpending : processor.interrupts.isPending .reset = true := hreset
    simp [InterruptState.canServe, hpending]
  have htaken : processor.taken = some .reset := by
    rw [(processor.inTurn memory).first, Interrupt.priority, List.find?_cons_of_pos hserve]
  rw [entered_of_taken memory htaken]
  exact ⟨htaken, interrupts_enterReset _⟩

-- A stopped processor does nothing until a reset, and a waiting one until anything is requested,
-- however many ticks that takes. The first tick after a request leaves the wait. Instructions and
-- entries take time, so no other tick takes none.
theorem idle_until_woken (processor : Processor) (memory : μ) :
    (processor.interrupts.stopped = true →
      (processor.isPending .reset = false →
        ∀ events : List (Event μ), .request .reset ∉ events →
          let reached := processor.after memory events
          processor.StaysStopped reached.1 ∧ reached.1.Idle reached.2) ∧
      (processor.isPending .reset = true →
        processor.taken = some .reset ∧ (processor.entered memory).2.interrupts = {})) ∧
    (processor.interrupts.waiting = true → processor.interrupts.stopped = false →
      processor.Quiet →
        ∀ events : List (Event μ), (∀ interrupt, .request interrupt ∉ events) →
          let reached := processor.after memory events
          reached.1 = processor ∧ reached.1.Idle reached.2 ∧
            ∀ requests : List Interrupt, requests ≠ [] →
              (requests.foldl request reached.1).WakesUp requests reached.2) ∧
    (∀ {machine fetched : Machine μ} {instruction : Instruction},
      fetch processor.opcodes machine = (.ok instruction, fetched) →
        instruction.operation.mnemonic.action = .wait →
          let r := machine.registers
          ∃ after, Execution.run instruction fetched = (.ok (), after) ∧
            after.registers = { r with pc := r.pc + (instruction.operation.size r.p).toUInt16 } ∧
            after.interrupts.waiting = (fetched.interrupts.waiting || !r.p.has .irqDisable)) ∧
    (processor.opcodes = .standard →
      ((processor.tick memory).1 = .ok 0 ↔
        processor.taken = none ∧ (processor.polled memory).interrupts.isHalted = true)) := by
  refine ⟨fun hstopped => ⟨fun hreset events hevents => ?_, fun hreset => ?_⟩,
    fun hwaiting hrunning hquiet events hevents => ?_, run_wait,
    fun hstandard => tick_eq_zero_iff hstandard memory⟩
  · have hstays := staysStopped_after hstopped hreset memory events hevents
    exact ⟨hstays, hstays.idle _⟩
  · exact reset_ends_halts hreset memory
  · have hreached := after_of_waiting hwaiting hquiet memory events hevents
    refine ⟨hreached, ?_, fun requests hrequests => ?_⟩
    · rw [hreached]
      exact idle_of_waiting hwaiting hquiet _
    · rw [hreached, foldl_request]
      refine wakesUp ?_ hrequests (fun interrupt => ?_) _
      · exact (InterruptState.stopped_foldl_request ..).trans hrunning
      · have hquiet : processor.interrupts.isPending interrupt = false := hquiet interrupt
        refine (processor.interrupts.isPending_foldl_request requests interrupt).trans ?_
        rw [hquiet, Bool.false_or]

-- An NMI leaves a stopped processor idle and wakes a waiting one.
theorem idle_until_woken_nmi :
    let stopped : Processor := { powerOn with interrupts := ⟨0, false, true⟩ }
    let waiting : Processor := { powerOn with interrupts := ⟨0, true, false⟩ }
    let memory : FlatMemory := ⟨fun _ => 0xEA⟩
    let nmis : List (Event FlatMemory) := [.tick, .request .nmi, .tick]
    (stopped.after memory nmis).1.Idle (stopped.after memory nmis).2 ∧
      waiting.Idle memory ∧ (waiting.request .nmi).WakesUp [.nmi] memory ∧
      ((waiting.request .nmi).tick memory).2.1.registers.pc = 0xEAEB := by
  intro stopped waiting memory nmis
  have hstopped := ((idle_until_woken stopped memory).1 rfl).1 (by decide) nmis (by simp [nmis])
  have hwaiting := (idle_until_woken waiting memory).2.1 rfl rfl
    (fun interrupt => by cases interrupt <;> decide) [] (fun _ => List.not_mem_nil)
  exact ⟨hstopped.2, hwaiting.2.1, hwaiting.2.2 [.nmi] (List.cons_ne_nil _ _), by decide +kernel⟩

end Processor

end Console816
