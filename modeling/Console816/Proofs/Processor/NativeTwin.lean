import Console816.Proofs.Memory.Flat
import Console816.Proofs.Processor.Dispatch

namespace Console816

-- The low byte of S goes round: a byte has been pushed where it is zero, or is pulled from there.
def Access.WrapsStack : Access → Prop
  | store address _ (.ok _) => address.low = 0
  | store _ _ (.error _) => False
  | load address _ => address.low = 0

instance : DecidablePred Access.WrapsStack
  | .store address _ (.ok _) => inferInstanceAs (Decidable (address.low = 0))
  | .store _ _ (.error _) => inferInstanceAs (Decidable False)
  | .load address _ => inferInstanceAs (Decidable (address.low = 0))

-- The actions that treat E otherwise than by moving the stack: entries into handlers and the return
-- from them, new values for S, and all that may clear M or X in native mode.
def Action.asksForEmulation : Action → Bool
  | raise _ | returnInterrupt | copyToStack _ | pull .status | putStatus false
  | exchangeEmulation => true
  | _ => false

theorem Mnemonic.asksForEmulation_iff (mnemonic : Mnemonic) :
    mnemonic.action.asksForEmulation = true ↔
      mnemonic ∈ [.rep, .plp, .rti, .xce, .txs, .tcs, .brk, .cop] := by
  cases mnemonic <;> decide

namespace Registers

-- Registers of emulation mode, with 8-bit widths and the stack in page 1.
def Emulates (r : Registers) : Prop := r.emulation = true ∧ r.WidthsAgree

@[simp] theorem native_s (r : Registers) : r.native.s = r.s :=
  rfl

-- In page 1 the stack moves alike in both modes, but at the ends.

theorem native_stackDown {r : Registers} (h : r.Emulates) (hlow : Word.low r.s ≠ 0) :
    r.native.stackDown = r.stackDown.native := by
  have hpage : Word.high (r.s - 1) = 0x01 := (Word.high_sub_one hlow).trans (h.2.page h.1)
  simp only [native, stackDown, h.1, if_true, Bool.false_eq_true, if_false,
    Word.pageOne_eq_self hpage]

theorem native_stackUp {r : Registers} (h : r.Emulates) (hlow : Word.low r.stackUp.s ≠ 0) :
    r.native.stackUp = r.stackUp.native := by
  simp only [stackUp, h.1, if_true, Word.low_pageOne] at hlow
  have hpage : Word.high (r.s + 1) = 0x01 := (Word.high_add_one hlow).trans (h.2.page h.1)
  simp only [native, stackUp, h.1, if_true, Bool.false_eq_true, if_false,
    Word.pageOne_eq_self hpage]

theorem Emulates.stackDown {r : Registers} (h : r.Emulates) : r.stackDown.Emulates :=
  ⟨h.1, h.2.stackDown⟩

theorem Emulates.stackUp {r : Registers} (h : r.Emulates) : r.stackUp.Emulates :=
  ⟨h.1, h.2.stackUp⟩

-- A change that means the same in both modes.
def Neutral (change : Registers → Registers) : Prop :=
  ∀ r, r.Emulates → change r.native = (change r).native ∧ (change r).Emulates

theorem assign_emulation (r : Registers) (target : DataRegister) (value : UInt16) :
    (r.assign target value).emulation = r.emulation := by
  cases target <;> rfl

theorem native_assign (r : Registers) (target : DataRegister) (value : UInt16) :
    r.native.assign target value = (r.assign target value).native := by
  cases target <;> rfl

-- Statuses under which all registers stay narrow are set alike in both modes.
theorem native_setStatus {r : Registers} (h : r.emulation = true) {p : Status}
    (hm : p.has .narrowAccumulator = true) (hx : p.has .narrowIndex = true) :
    r.native.setStatus p = (r.setStatus p).native := by
  simp only [native, setStatus, h, if_true, Bool.false_eq_true, if_false, Status.put_eq_self hm,
    Status.put_eq_self hx, hx]

theorem native_putStatus {r : Registers} (h : r.Emulates) (mask : UInt8) :
    r.native.putStatus mask true = (r.putStatus mask true).native :=
  native_setStatus h.1 (Status.has_putMask (h.2.narrow h.1).1 mask)
    (Status.has_putMask (h.2.narrow h.1).2 mask)

end Registers

namespace Action.Makes

open Registers (Neutral)

variable {action : Action} {r : Registers} {operand : Operand} {change : Registers → Registers}

theorem emulation (hmakes : action.Makes r operand change) (hasks : action.asksForEmulation = false)
    (r' : Registers) : (change r').emulation = r'.emulation := by
  cases hmakes with
  | assign hassigned value => exact r'.assign_emulation _ (value r')
  | testBits value isConstant => cases isConstant <;> rfl
  | stepIndex register => cases register <;> rfl
  | copyWord target => cases target <;> rfl
  | pulled target value =>
      cases target with
      | data register => exact r'.assign_emulation register value
      | direct | dataBank => rfl
      | status => cases hasks
  | status => exact r'.setStatus_emulation _
  | exchangeEmulation => cases hasks
  | _ => rfl

theorem native (hmakes : action.Makes r operand change) (hasks : action.asksForEmulation = false)
    {r' : Registers} (h : r'.Emulates) : change r'.native = (change r').native := by
  cases hmakes with
  | comparison register => cases register <;> rfl
  | @assign _ target hassigned value hvalue =>
      dsimp only
      rw [hvalue, Registers.native_assign]
  | testBits value isConstant => cases isConstant <;> rfl
  | stepIndex register => cases register <;> rfl
  | copyWord target source =>
      dsimp only
      rw [r'.word_native]
      cases target <;> rfl
  | pulled target value =>
      cases target with
      | data register => exact r'.native_assign register value
      | direct | dataBank => rfl
      | status => cases hasks
  | status mask value =>
      cases value with
      | true => exact Registers.native_putStatus h mask
      | false => cases hasks
  | copyToStack | exchangeEmulation => cases hasks
  | _ => rfl

theorem neutral (hmakes : action.Makes r operand change) (hregular : action.Regular)
    (hasks : action.asksForEmulation = false) : Neutral change := fun r' h =>
  ⟨hmakes.native hasks h, (hmakes.emulation hasks r').trans h.1,
    h.2.change (hmakes.change hregular)⟩

end Action.Makes

-- The same machine in native mode.
def Machine.native {μ : Type} (machine : Machine μ) : Machine μ :=
  { machine with registers := machine.registers.native }

namespace Execution

open Registers (Emulates Neutral native_stackDown native_stackUp)

variable {μ α β : Type} {counts : Access → Bool}

-- Among the accesses that count there is one that wraps the stack.
def Wrapped (counts : Access → Bool) (log : AccessLog μ) : Prop :=
  ∃ access ∈ log.accesses, counts access = true ∧ access.WrapsStack

theorem Wrapped.push {memory : μ} {accesses : Array Access} (h : Wrapped counts ⟨memory, accesses⟩)
    (after : μ) (access : Access) : Wrapped counts ⟨after, accesses.push access⟩ := by
  obtain ⟨made, hmem, hwraps⟩ := h
  exact ⟨made, Array.mem_push_of_mem access hmem, hwraps⟩

theorem wrapped_push {memory : μ} {accesses : Array Access} {access : Access}
    (hcounts : counts access = true) (hwraps : access.WrapsStack) :
    Wrapped counts ⟨memory, accesses.push access⟩ :=
  ⟨access, Array.mem_push_self, hcounts, hwraps⟩

theorem pushByte_apply [Memory μ] (value : UInt8) (machine : Machine μ) :
    pushByte value machine =
      match Memory.store ⟨0, machine.registers.s⟩ value machine.memory with
      | (.ok _, memory) =>
        (.ok (), { machine with registers := machine.registers.stackDown, memory })
      | (.error error, memory) => (.error (.bus error), { machine with memory }) := by
  rw [pushByte, registers_bind_apply, bind_apply, storeByte]
  rcases Memory.store ⟨0, machine.registers.s⟩ value machine.memory with ⟨answer, memory⟩
  cases answer <;> rfl

theorem pullByte_apply [Memory μ] (machine : Machine μ) :
    pullByte machine =
      loadByte ⟨0, machine.registers.stackUp.s⟩
        { machine with registers := machine.registers.stackUp } :=
  rfl

section Log

variable [Memory μ] {log : AccessLog μ}

theorem Wrapped.load (h : Wrapped counts log) (address : Address) :
    Wrapped counts (Memory.load address log).2 :=
  h.push _ _

theorem Wrapped.store (h : Wrapped counts log) (address : Address) (value : UInt8) :
    Wrapped counts (Memory.store address value log).2 :=
  h.push _ _

theorem wrapped_loadByte {address : Address}
    (hcounts : ∀ result, counts (.load address result) = true) (hlow : address.low = 0)
    (machine : Machine (AccessLog μ)) :
    Wrapped counts (loadByte address machine).2.memory := by
  have hafter : Wrapped counts (Memory.load address machine.memory).2 :=
    wrapped_push (hcounts _) hlow
  unfold loadByte
  split <;> simp_all

end Log

-- From emulation mode and from native mode, the two come to the same if the stack does not wrap on
-- the way. Once it has wrapped, nothing is said any more.
structure Twins (counts : Access → Bool) (work work' : Execution (AccessLog μ) α) : Prop where
  emulates : Keeps (fun machine => machine.registers.Emulates) work
  wrapped : Keeps (fun machine => machine.registers.Emulates ∧ Wrapped counts machine.memory) work
  agrees : ∀ machine, machine.registers.Emulates → ¬Wrapped counts (work machine).2.memory →
    work' machine.native = ((work machine).1, (work machine).2.native)

namespace Twins

theorem pure (value : α) :
    Twins counts (pure value : Execution (AccessLog μ) α) (pure value) where
  emulates := .pure value
  wrapped := .pure value
  agrees _ _ _ := rfl

theorem throw (error : ProcessorError) :
    Twins counts (throw error : Execution (AccessLog μ) α) (throw error) where
  emulates := .throw error
  wrapped := .throw error
  agrees _ _ _ := rfl

theorem bind {first first' : Execution (AccessLog μ) α}
    {next next' : α → Execution (AccessLog μ) β} (hfirst : Twins counts first first')
    (hnext : ∀ value, Twins counts (next value) (next' value)) :
    Twins counts (first >>= next) (first' >>= next') where
  emulates := hfirst.emulates.bind fun value => (hnext value).emulates
  wrapped := hfirst.wrapped.bind fun value => (hnext value).wrapped
  agrees machine hem hnot := by
    have hafter := hfirst.emulates machine hem
    have hagrees := hfirst.agrees machine hem
    rw [bind_apply] at hnot ⊢
    rw [bind_apply]
    rcases hone : first machine with ⟨answer, after⟩
    rw [hone] at hafter hagrees hnot
    cases answer with
    | ok value =>
        have hfar : ¬Wrapped counts after.memory := fun hwrapped =>
          hnot ((hnext value).wrapped after ⟨hafter, hwrapped⟩).2
        rw [hagrees hfar]
        exact (hnext value).agrees after hafter hnot
    | error error => rw [hagrees hnot]

theorem registers_bind {next next' : Registers → Execution (AccessLog μ) β}
    (hblind : ∀ r, next' r.native = next' r)
    (hnext : ∀ r, r.Emulates → Twins counts (next r) (next' r)) :
    Twins counts (registers >>= next) (registers >>= next') where
  emulates machine hem := (hnext machine.registers hem).emulates machine hem
  wrapped machine hboth := (hnext machine.registers hboth.1).wrapped machine hboth
  agrees machine hem hnot := by
    rw [registers_bind_apply, registers_bind_apply]
    have hsame : next' machine.native.registers = next' machine.registers :=
      hblind machine.registers
    rw [hsame]
    exact (hnext machine.registers hem).agrees machine hem hnot

theorem charge (cycles : Nat) :
    Twins counts (charge cycles : Execution (AccessLog μ) Unit) (Execution.charge cycles) where
  emulates _ hem := hem
  wrapped _ hboth := hboth
  agrees _ _ _ := rfl

theorem modifyInterrupts (change : InterruptState → InterruptState) :
    Twins counts (modifyInterrupts change : Execution (AccessLog μ) Unit)
      (Execution.modifyInterrupts change) where
  emulates _ hem := hem
  wrapped _ hboth := hboth
  agrees _ _ _ := rfl

theorem modifyRegisters {change : Registers → Registers} (hneutral : Neutral change) :
    Twins counts (modifyRegisters change : Execution (AccessLog μ) Unit)
      (Execution.modifyRegisters change) where
  emulates machine hem := (hneutral machine.registers hem).2
  wrapped machine hboth := ⟨(hneutral machine.registers hboth.1).2, hboth.2⟩
  agrees machine hem _ := by
    have hsame := (hneutral machine.registers hem).1
    exact congrArg (fun registers => (Except.ok (), { machine with registers })) hsame

variable [Memory μ]

theorem loadByte (address : Address) :
    Twins counts (loadByte address : Execution (AccessLog μ) UInt8)
      (Execution.loadByte address) where
  emulates machine hem := by
    unfold Execution.loadByte
    split <;> exact hem
  wrapped machine hboth := by
    have hafter := hboth.2.load address
    unfold Execution.loadByte
    split <;> simp_all
  agrees machine hem _ := by
    simp only [Execution.loadByte, Machine.native]
    split <;> rfl

theorem storeByte (address : Address) (value : UInt8) :
    Twins counts (storeByte address value : Execution (AccessLog μ) Unit)
      (Execution.storeByte address value) where
  emulates machine hem := by
    unfold Execution.storeByte
    split <;> exact hem
  wrapped machine hboth := by
    have hafter := hboth.2.store address value
    unfold Execution.storeByte
    split <;> simp_all
  agrees machine hem _ := by
    simp only [Execution.storeByte, Machine.native]
    split <;> rfl

-- The stack moves alike while it does not wrap.

theorem pushByte (hcounts : ∀ address value result, counts (.store address value result) = true)
    (value : UInt8) :
    Twins counts (pushByte value : Execution (AccessLog μ) Unit) (Execution.pushByte value) where
  emulates machine hem := by
    rw [pushByte_apply]
    split
    · exact hem.stackDown
    · exact hem
  wrapped machine hboth := by
    have hafter := hboth.2.store ⟨0, machine.registers.s⟩ value
    have hdown := hboth.1.stackDown
    rw [pushByte_apply]
    split <;> simp_all
  agrees machine hem hnot := by
    obtain ⟨r, interrupts, ⟨memory, made⟩, cycles⟩ := machine
    rw [pushByte_apply] at hnot ⊢
    rw [pushByte_apply]
    simp only [Machine.native, Memory.store, Registers.native_s] at hnot ⊢
    rcases hstore : Memory.store ⟨0, r.s⟩ value memory with ⟨answer, after⟩
    simp only [hstore] at hnot ⊢
    cases answer with
    | error error => rfl
    | ok =>
        have hlow : Word.low r.s ≠ 0 := fun hlow =>
          hnot (wrapped_push (hcounts ⟨0, r.s⟩ value (.ok ())) hlow)
        simp only [native_stackDown hem hlow]

theorem pullByte (hcounts : ∀ address result, counts (.load address result) = true) :
    Twins counts (pullByte : Execution (AccessLog μ) UInt8) Execution.pullByte where
  emulates _ hem := (loadByte _ : Twins counts _ _).emulates _ hem.stackUp
  wrapped _ hboth := (loadByte _).wrapped _ ⟨hboth.1.stackUp, hboth.2⟩
  agrees machine hem hnot := by
    have hlow : Word.low machine.registers.stackUp.s ≠ 0 := fun hlow =>
      hnot (wrapped_loadByte (fun result => hcounts ⟨0, machine.registers.stackUp.s⟩ result) hlow _)
    have hagrees := (loadByte _).agrees _ hem.stackUp hnot
    simp only [Machine.native] at hagrees
    simp only [pullByte_apply, Machine.native, native_stackUp hem hlow, Registers.native_s]
    exact hagrees

end Twins

variable [Memory μ]

theorem tracks_twins : Tracks Emulates Neutral (Twins (μ := μ) counts) where
  pure := .pure
  bind := .bind
  loadByte := .loadByte
  registers_bind := .registers_bind
  modifyRegisters := .modifyRegisters
  storeByte := .storeByte
  charge := .charge
  throw := .throw

theorem allows_neutral {action : Action} (hregular : action.Regular)
    (hasks : action.asksForEmulation = false) (operand : Operand) :
    Allows Emulates Neutral operand action := fun _ hmakes =>
  hmakes.neutral hregular hasks

namespace Twins

theorem fetch (table : OpcodeTable) :
    Twins counts (fetch table : Execution (AccessLog μ) Instruction) (Execution.fetch table) :=
  tracks_twins.fetch (fun _ _ h => ⟨rfl, h.1, { h.2 with }⟩) table

theorem run {instruction : Instruction}
    (hasks : instruction.operation.mnemonic.action.asksForEmulation = false) :
    Twins instruction.operation.mnemonic.action.isStackAccess
      (run instruction : Execution (AccessLog μ) Unit) (Execution.run instruction) := by
  refine bind (.charge _) fun _ => ?_
  have hallows : Allows Emulates Neutral instruction.operand
      instruction.operation.mnemonic.action :=
    allows_neutral instruction.operation.mnemonic.action_regular hasks _
  generalize instruction.operation.mnemonic.action = action at hasks hallows ⊢
  refine tracks_twins.perform instruction hallows ?_ ?_ ?_ ?_
    (fun _ => tracks_twins.wait (.modifyInterrupts _)) fun _ => .modifyInterrupts _
  · intro hpushes value
    refine pushByte (fun _ _ _ => ?_) value
    cases action <;> first | rfl | cases hpushes
  · intro hpulls
    refine pullByte fun _ _ => ?_
    cases action <;> first | rfl | cases hpulls
  · rintro rfl
    cases hasks
  · rintro interrupt rfl
    cases hasks

end Twins

end Execution

namespace Execution

variable {μ α β : Type}

-- Work from native mode does what it does from emulation mode: it answers the same, makes the same
-- accesses, and leaves a machine that differs in E alone.
structure SameInNative (logged : Execution (AccessLog μ) α) (work : Execution μ α)
    (machine : Machine μ) : Prop where
  same : work machine.native = ((work machine).1, (work machine).2.native)
  accesses : accesses logged machine.native = accesses logged machine
  emulates : (work machine).2.registers.Emulates

theorem Twins.sameInNative {counts : Access → Bool} {logged : Execution (AccessLog μ) α}
    {work : Execution μ α} (htwins : Twins counts logged logged)
    (hlogs : Logs logged work)
    {machine : Machine μ} (hem : machine.registers.Emulates)
    (hstack : ∀ access ∈ (Execution.accesses logged machine).filter counts, ¬access.WrapsStack) :
    SameInNative logged work machine := by
  have hagrees := htwins.agrees machine.logged hem fun ⟨access, hmem, hcounts, hwraps⟩ =>
    hstack access (List.mem_filter.mpr ⟨Array.mem_toList_iff.mpr hmem, hcounts⟩) hwraps
  refine ⟨?_, congrArg (fun after => after.2.memory.accesses.toList) hagrees, ?_⟩
  · rw [hlogs.eq_unlogged, hlogs.eq_unlogged machine]
    exact congrArg (fun after => (after.1, after.2.unlogged)) hagrees
  · rw [hlogs.eq_unlogged]
    exact htwins.emulates machine.logged hem

-- One piece of work after the other.
theorem SameInNative.bind {first : Execution (AccessLog μ) α} {work : Execution μ α}
    {next : α → Execution (AccessLog μ) β} {next' : α → Execution μ β}
    (hlogs : Logs first work)
    (happended : ∀ value before,
      Matched (Alike (fun _ => True) (Appended before)) (next value) (next value))
    {machine : Machine μ} (hfirst : SameInNative first work machine)
    (hnext : ∀ value after, work machine = (.ok value, after) → after.registers.Emulates →
      SameInNative (next value) (next' value) after) :
    SameInNative (first >>= next) (work >>= next') machine := by
  obtain ⟨hboth, haccesses, hemulates⟩ := hfirst
  rcases hwork : work machine with ⟨answer, after⟩
  rw [hwork] at hboth hemulates
  cases answer with
  | error error =>
      refine ⟨?_, ?_, ?_⟩
      · rw [bind_apply, bind_apply, hboth, hwork]
      · rw [accesses_bind_of_error hlogs hboth, accesses_bind_of_error hlogs hwork, haccesses]
      · rw [bind_apply, hwork]
        exact hemulates
  | ok value =>
      have hrest := hnext value after hwork hemulates
      refine ⟨?_, ?_, ?_⟩
      · rw [bind_of_ok hboth, bind_of_ok hwork]
        exact hrest.same
      · rw [accesses_bind_of_ok hlogs happended hboth, accesses_bind_of_ok hlogs happended hwork,
          haccesses, hrest.accesses]
      · rw [bind_of_ok hwork]
        exact hrest.emulates

variable [Memory μ]

-- Emulation mode is native mode with 8-bit registers, as long as the stack does not wrap and the
-- instruction does not ask for the mode.
theorem dispatch_native (table : OpcodeTable) {machine : Machine μ}
    (hem : machine.registers.emulation = true) (hwidths : machine.registers.WidthsAgree)
    (hplain : ∀ instruction fetched, fetch table machine = (.ok instruction, fetched) →
      instruction.operation.mnemonic ∉ [.rep, .plp, .rti, .xce, .txs, .tcs, .brk, .cop] ∧
        ∀ access ∈ instructionStackBytes instruction fetched, ¬access.WrapsStack) :
    SameInNative (dispatch table) (dispatch table) machine := by
  have hlogs := lockstep_log (μ := μ).fetch table
  -- reading code neither pushes nor pulls, so that nothing counts
  have htwins : Twins (fun _ => false) (fetch table : Execution (AccessLog μ) Instruction)
      (fetch table) := .fetch table
  have hfetch : SameInNative (fetch table) (fetch table) machine :=
    htwins.sameInNative hlogs ⟨hem, hwidths⟩ (by simp)
  refine hfetch.bind hlogs (fun instruction before => (lockstep_appended before).run instruction)
    fun instruction fetched hfetched hemulates => ?_
  obtain ⟨hmnemonic, hstack⟩ := hplain instruction fetched hfetched
  rw [instructionStackBytes, if_pos hemulates.1] at hstack
  have hasks : instruction.operation.mnemonic.action.asksForEmulation = false := by
    rw [← Bool.not_eq_true, Mnemonic.asksForEmulation_iff]
    exact hmnemonic
  exact (Twins.run hasks).sameInNative (lockstep_log.run instruction) hemulates hstack

-- A call from the top of page 1.
theorem dispatch_native_jsr :
    let machine : Machine FlatMemory :=
      ⟨{ Registers.powerOn with s := 0x01FF }, {}, ⟨fun _ => 0x20⟩, 0⟩
    machine.registers.WidthsAgree ∧ SameInNative (dispatch .standard) (dispatch .standard) machine ∧
      (accesses (dispatch .standard) machine.native).map Access.address =
        [⟨0, 0⟩, ⟨0, 1⟩, ⟨0, 2⟩, ⟨0, 0x1FF⟩, ⟨0, 0x1FE⟩] ∧
      (dispatch .standard machine.native).2.registers =
        { Registers.powerOn with s := 0x01FD, pc := 0x2020, emulation := false } := by
  intro machine
  have hwidths : machine.registers.WidthsAgree :=
    Registers.widthsAgree_powerOn.of_stack fun _ => by decide
  let jsr : Instruction := ⟨⟨0x20, .jsr, .absolute, 6⟩, ⟨0, 0⟩, .absolute 0x2020⟩
  have hjsr : (fetch .standard machine).1.toOption = some jsr := by decide +kernel
  have hstack : ∀ access ∈ instructionStackBytes jsr (fetch .standard machine).2,
      ¬access.WrapsStack := by decide +kernel
  refine ⟨hwidths, dispatch_native .standard rfl hwidths fun instruction fetched hfetch => ?_,
    by decide +kernel, by decide +kernel⟩
  rw [hfetch] at hjsr hstack
  cases hjsr
  exact ⟨by decide, hstack⟩

end Execution

end Console816
