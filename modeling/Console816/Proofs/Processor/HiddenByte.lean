import Console816.Proofs.Memory.Flat
import Console816.Proofs.Processor.Failures
import Console816.Proofs.Processor.Halts
import Console816.Proofs.Registers.Widths

namespace Console816

-- An 8-bit value leaves the high byte of a register alone.
theorem Width.high_merge_byte (register value : UInt16) :
    Word.high (byte.merge register value) = Word.high register := by
  have hkept : (~~~(0xFF : UInt16) >>> 8).toUInt8 = 0xFF := by decide
  have hnew : ((0xFF : UInt16) >>> 8).toUInt8 = 0 := by decide
  simp only [merge, mask, Word.high, UInt16.shiftRight_or, UInt16.shiftRight_and,
    UInt16.toUInt8_or, UInt16.toUInt8_and, hkept, hnew, UInt8.and_zero, UInt8.or_zero]
  exact UInt8.and_neg_one

namespace Action

-- Sets A as a whole, whatever its width is.
def replacesAccumulator : Action → Bool
  | swapBytes | copyWord .a _ | blockMove _ => true
  | _ => false

-- May set the widths. Such an action leaves A alone.
def setsStatus : Action → Bool
  | pull .status | putStatus _ | exchangeEmulation | returnInterrupt | raise _ => true
  | _ => false

end Action

theorem Mnemonic.replacesAccumulator_iff (mnemonic : Mnemonic) :
    mnemonic.action.replacesAccumulator = true ↔
      mnemonic ∈ [.xba, .tsc, .tdc, .mvn, .mvp] := by
  cases mnemonic <;> decide

theorem Mnemonic.source_cases {mnemonic : Mnemonic} {source : DataRegister}
    (hstore : mnemonic.action = .store source) : source = .a ∨ mnemonic ∈ [.stx, .sty] := by
  cases mnemonic <;> cases hstore <;> simp

-- An index register of 16 bits can be stored in A where the operand names A.
def Instruction.UncoversHigh (instruction : Instruction) (r : Registers) : Prop :=
  instruction.operation.mnemonic ∈ [.xba, .tsc, .tdc, .mvn, .mvp] ∨
    instruction.operation.mnemonic ∈ [.stx, .sty] ∧ instruction.operand = .accumulator ∧
      r.indexWidth = .word

instance (instruction : Instruction) (r : Registers) : Decidable (instruction.UncoversHigh r) :=
  inferInstanceAs (Decidable (_ ∨ _))

namespace Registers

def HasHigh (byte : UInt8) (r : Registers) : Prop := Word.high r.a = byte

def NarrowHigh (byte : UInt8) (r : Registers) : Prop :=
  r.p.has .narrowAccumulator = true ∧ r.HasHigh byte

-- A has this high byte, under the widths of a status.
structure Hides (p : Status) (byte : UInt8) (r : Registers) : Prop where
  widths : r.p.SameWidths p
  high : r.HasHigh byte

namespace Hides

variable {p : Status} {byte : UInt8} {r : Registers}

theorem of_status (h : r.Hides p byte) {p' : Status} (hp : p'.SameWidths r.p) :
    { r with p := p' }.Hides p byte :=
  ⟨hp.trans h.widths, h.high⟩

theorem of_byte (h : r.Hides p byte) {p' : Status} (hp : p'.SameWidths r.p) (value : UInt16) :
    { r with p := p', a := Width.byte.merge r.a value }.Hides p byte :=
  ⟨hp.trans h.widths, (Width.high_merge_byte r.a value).trans h.high⟩

theorem accumulatorWidth_eq (h : r.Hides p byte) (hnarrow : p.has .narrowAccumulator = true) :
    r.accumulatorWidth = .byte := by
  simp [accumulatorWidth, Status.accumulatorWidth, Width.ofNarrow, h.widths.1, hnarrow]

theorem assign (h : r.Hides p byte) (hnarrow : p.has .narrowAccumulator = true)
    (target : DataRegister) (value : UInt16) : (r.assign target value).Hides p byte := by
  have hp := r.p.sameWidths_describe (r.dataWidth target) value
  cases target with
  | a =>
      have hwidth : r.dataWidth .a = .byte := h.accumulatorWidth_eq hnarrow
      simp only [Registers.assign, hwidth] at hp ⊢
      exact h.of_byte hp value
  | x | y => exact { h.of_status hp with }

theorem stepData (h : r.Hides p byte) (hnarrow : p.has .narrowAccumulator = true)
    (target : DataRegister) (delta : UInt16) : (r.stepData target delta).Hides p byte := by
  have hp := r.p.sameWidths_describe (r.dataWidth target) (r.data target + delta)
  cases target with
  | a =>
      have hwidth : r.dataWidth .a = .byte := h.accumulatorWidth_eq hnarrow
      simp only [Registers.stepData, hwidth] at hp ⊢
      exact h.of_byte hp _
  | x | y => exact { h.of_status hp with }

theorem testBits (h : r.Hides p byte) (width : Width) (value : UInt16) (isConstant : Bool) :
    (r.testBits width value isConstant).Hides p byte := by
  rw [testBits_eq]
  exact h.of_status (r.sameWidths_testBits width value isConstant)


end Hides

-- A new status changes no A.
theorem setStatus_a (r : Registers) (p : Status) : (r.setStatus p).a = r.a := by
  simp only [setStatus, apply_ite Registers.a, ite_self]

theorem exchangeEmulation_a (r : Registers) : r.exchangeEmulation.a = r.a := by
  simp only [exchangeEmulation, setEmulation, apply_ite Registers.a, setStatus_a, ite_self]

end Registers

namespace Execution

open Registers (HasHigh Hides NarrowHigh)

variable {μ : Type} [Memory μ]

-- What all changes keep, all work keeps.
theorem tracks_kept (kept : Registers → Prop) :
    Tracks kept (fun change => ∀ r, kept r → kept (change r))
      fun (work : Execution μ _) (_ : Execution μ _) =>
        Keeps (fun machine => kept machine.registers) work where
  toComposesBytes := (invariantReads_registers kept).composes.toComposesBytes
  registers_bind _ hnext machine hkept := hnext machine.registers hkept machine hkept
  modifyRegisters hallowed machine hkept := hallowed machine.registers hkept
  storeByte address value machine hkept := by
    unfold Execution.storeByte
    split <;> exact hkept
  charge := (invariantReads_registers kept).composes.charge
  throw := .throw

section Stack

variable {kept : Registers → Prop}

theorem keeps_pushByte (hdown : ∀ r, kept r → kept r.stackDown) (value : UInt8) :
    Keeps (fun machine => kept machine.registers) (pushByte value : Execution μ Unit) :=
  (tracks_kept kept).pushByte .registers hdown value

theorem keeps_pullByte (hup : ∀ r, kept r → kept r.stackUp) :
    Keeps (fun machine => kept machine.registers) (pullByte : Execution μ UInt8) :=
  (tracks_kept kept).pullByte .registers hup

theorem keeps_enter (hallows : AllowsEntry fun change => ∀ r, kept r → kept (change r))
    (interrupt : Interrupt) :
    Keeps (fun machine => kept machine.registers) (enter interrupt : Execution μ Unit) :=
  (tracks_kept kept).enter .registers (tracks_kept kept).charge hallows fun _ _ hkept => hkept

theorem keeps_acknowledge
    (henter : ∀ interrupt, Keeps (fun machine => kept machine.registers)
      (enter interrupt : Execution μ Unit)) :
    Keeps (fun machine => kept machine.registers)
      (acknowledge : Execution μ (Option Interrupt)) := by
  refine Keeps.registers.bind fun r => Keeps.bind (fun _ hkept => hkept) fun taken => ?_
  cases taken with
  | none => exact .pure none
  | some interrupt => exact (henter interrupt).bind fun _ => .pure _

end Stack

-- Under 8-bit A no change reaches its high byte, as long as the widths stay.
theorem allows_hides {p : Status} {byte : UInt8} (hnarrow : p.has .narrowAccumulator = true)
    {action : Action} {operand : Operand} (hregular : action.Regular)
    (hstatus : action.setsStatus = false) (hreplaces : action.replacesAccumulator = false)
    (hstore : ∀ source, action = .store source → operand = .accumulator →
      source = .a ∨ p.has .narrowIndex = true) :
    Allows (Hides p byte) (fun change => ∀ r, r.Hides p byte → (change r).Hides p byte) operand
      action := by
  intro r change hknown hmakes r' h
  have hwidth := hknown.accumulatorWidth_eq hnarrow
  cases hmakes with
  | counter | longCounter | copyToStack => exact { h with }
  | sum value =>
      rw [hwidth]
      exact h.of_byte (Arithmetic.sameWidths_addCorrected _ .byte r'.a value r'.p) _
  | difference value =>
      rw [hwidth]
      exact h.of_byte (Arithmetic.sameWidths_addCorrected _ .byte r'.a (~~~value) r'.p) _
  | comparison register value => exact h.of_status (Arithmetic.sameWidths_compare _ _ value r'.p)
  | testBits value isConstant => exact h.testBits _ value isConstant
  | assign hassigned value hvalue => exact h.assign hnarrow _ (value r')
  | zero bits isZero => exact h.of_status (r'.p.sameWidths_put isZero (by decide) (by decide))
  | shift kind old =>
      exact h.of_status ((Status.sameWidths_describe _ _ _).trans
        (r'.p.sameWidths_put _ (by decide) (by decide)))
  | step delta value => exact h.of_status (r'.p.sameWidths_describe _ value)
  | @accumulator _ width hwritten hoperand value =>
      have hbyte : width = .byte := by
        cases action with
        | putBits | shift | step | storeZero => exact (Option.some.inj hwritten).symm.trans hwidth
        | store source =>
            obtain rfl := Option.some.inj hwritten
            rcases hstore source rfl hoperand with rfl | hindex
            · exact hwidth
            · cases source with
              | a => exact hwidth
              | x | y =>
                  simp [Registers.dataWidth, Registers.indexWidth, Status.indexWidth,
                    Width.ofNarrow, hknown.widths.2, hindex]
        | _ => cases hwritten
      subst hbyte
      exact h.of_byte ⟨rfl, rfl⟩ value
  | stepIndex register delta => exact h.stepData hnarrow register delta
  | copyWord target source =>
      rcases hregular with rfl | rfl
      · cases hreplaces
      · exact { h.of_status (r'.p.sameWidths_describe .word _) with }
  | swapBytes | dataBank | moveOn => cases hreplaces
  | pulled target value =>
      cases target with
      | data register => exact h.assign hnarrow register value
      | direct | dataBank => exact { h.of_status (r'.p.sameWidths_describe _ value) with }
      | status => cases hstatus
  | flag flag value => exact h.of_status (r'.p.sameWidths_put value hregular.1 hregular.2)
  | status | exchangeEmulation => cases hstatus

-- What sets the widths leaves A alone.
theorem allows_hasHigh {byte : UInt8} {action : Action} {operand : Operand}
    (hstatus : action.setsStatus = true) :
    Allows (HasHigh byte) (fun change => ∀ r, r.HasHigh byte → (change r).HasHigh byte) operand
      action := by
  intro r change _ hmakes r' hhigh
  cases hmakes with
  | counter | longCounter => exact hhigh
  | assign hassigned => cases action <;> cases hassigned <;> cases hstatus
  | accumulator hwritten => cases action <;> cases hwritten <;> cases hstatus
  | pulled target value =>
      cases target with
      | status => exact (congrArg Word.high (r'.setStatus_a _)).trans hhigh
      | data | direct | dataBank => cases hstatus
  | status mask value => exact (congrArg Word.high (r'.setStatus_a _)).trans hhigh
  | exchangeEmulation => exact (congrArg Word.high r'.exchangeEmulation_a).trans hhigh
  | _ => cases hstatus

section Run

variable {byte : UInt8}

theorem keeps_hasHigh_enter (interrupt : Interrupt) :
    Keeps (fun machine => HasHigh byte machine.registers) (enter interrupt : Execution μ Unit) :=
  keeps_enter ⟨fun _ hhigh => hhigh, fun _ hhigh => hhigh, fun _ _ hhigh => hhigh,
    fun _ hhigh => hhigh⟩ interrupt

theorem keeps_hasHigh_returnInterrupt :
    Keeps (fun machine => HasHigh byte machine.registers)
      (returnInterrupt : Execution μ Unit) := by
  have tracks := tracks_kept (μ := μ) (HasHigh byte)
  have hstatus (p : Status) (r : Registers) (hhigh : r.HasHigh byte) :
      (r.setStatus p).HasHigh byte := (congrArg Word.high (r.setStatus_a p)).trans hhigh
  exact tracks.returnInterrupt .registers tracks.charge
    ⟨fun _ hhigh => hhigh, hstatus, fun _ _ hhigh => hhigh, fun _ _ hhigh => hhigh⟩

theorem high_run {instruction : Instruction} {machine : Machine μ}
    (hnarrow : machine.registers.p.has .narrowAccumulator = true)
    (hcovers : ¬instruction.UncoversHigh machine.registers) :
    Word.high (run instruction machine).2.registers.a = Word.high machine.registers.a := by
  have hregular := instruction.operation.mnemonic.action_regular
  cases hstatus : instruction.operation.mnemonic.action.setsStatus with
  | true =>
      have tracks := tracks_kept (μ := μ) (HasHigh (Word.high machine.registers.a))
      have hperform := tracks.perform instruction (allows_hasHigh hstatus)
        (fun _ => keeps_pushByte fun _ hhigh => hhigh)
        (fun _ => keeps_pullByte fun _ hhigh => hhigh)
        (fun _ => keeps_hasHigh_returnInterrupt) (fun interrupt _ => keeps_hasHigh_enter interrupt)
        (fun _ => tracks.wait fun _ hkept => hkept) fun _ _ hhigh => hhigh
      exact Keeps.bind (tracks.charge _) (fun _ => hperform) machine rfl
  | false =>
      have tracks := tracks_kept (μ := μ)
        (Hides machine.registers.p (Word.high machine.registers.a))
      have hreplaces : instruction.operation.mnemonic.action.replacesAccumulator = false := by
        rw [← Bool.not_eq_true, Mnemonic.replacesAccumulator_iff]
        exact fun hmem => hcovers (.inl hmem)
      have hstore (source : DataRegister)
          (haction : instruction.operation.mnemonic.action = .store source)
          (hoperand : instruction.operand = .accumulator) :
          source = .a ∨ machine.registers.p.has .narrowIndex = true := by
        refine (Mnemonic.source_cases haction).imp_right fun hindex => ?_
        by_cases hx : machine.registers.p.has .narrowIndex = true
        · exact hx
        · refine absurd (.inr ⟨hindex, hoperand, ?_⟩) hcovers
          simp [Registers.indexWidth, Status.indexWidth, Width.ofNarrow, hx]
      have hperform := tracks.perform instruction
        (allows_hides hnarrow hregular hstatus hreplaces hstore)
        (fun _ => keeps_pushByte fun _ h => { h with })
        (fun _ => keeps_pullByte fun _ h => { h with })
        (fun haction => by rw [haction] at hstatus; cases hstatus)
        (fun _ haction => by rw [haction] at hstatus; cases hstatus)
        (fun _ => tracks.wait fun _ hkept => hkept) fun _ _ hides => hides
      exact (Keeps.bind (tracks.charge _) (fun _ => hperform) machine ⟨⟨rfl, rfl⟩, rfl⟩).high

-- The instruction that a tick comes to run, with the registers that it begins with.
def executed? (table : OpcodeTable) (machine : Machine μ) : Option (Instruction × Registers) :=
  match acknowledge machine with
  | (.error _, _) => none
  | (.ok _, entered) =>
    if entered.interrupts.isHalted then none
    else
      match fetch table entered with
      | (.error _, _) => none
      | (.ok instruction, fetched) => some (instruction, fetched.registers)

theorem high_proceed {table : OpcodeTable} {machine : Machine μ}
    (hnarrow : machine.registers.p.has .narrowAccumulator = true)
    (hcovers : ∀ instruction fetched, machine.interrupts.isHalted = false →
      fetch table machine = (.ok instruction, fetched) →
        ¬instruction.UncoversHigh fetched.registers) :
    Word.high (proceed table machine).2.registers.a = Word.high machine.registers.a := by
  have tracks := tracks_kept (μ := μ) (HasHigh (Word.high machine.registers.a))
  cases hhalted : machine.interrupts.isHalted with
  | true =>
      rw [proceed, bind_of_ok (isHalted_apply machine), hhalted]
      rfl
  | false =>
      have hfetched := tracks.fetch (fun _ _ hhigh => hhigh) table machine rfl
      rw [proceed_of_running hhalted, bind_apply]
      rcases hfetch : fetch table machine with ⟨answer, fetched⟩
      rw [hfetch] at hfetched
      cases answer with
      | error error => exact hfetched
      | ok instruction =>
          have hstatus : fetched.registers.p = machine.registers.p := by
            rw [(fetch_ok hfetch).2]
          exact (high_run (hstatus ▸ hnarrow) (hcovers instruction fetched hhalted hfetch)).trans
            hfetched

-- 8-bit A stays so through any entry, a reset as well.
theorem keeps_narrow_acknowledge :
    Keeps (fun machine => NarrowHigh byte machine.registers)
      (acknowledge : Execution μ (Option Interrupt)) := by
  have hpower : Status.powerOn.has .narrowAccumulator = true := by decide
  refine keeps_acknowledge fun interrupt => keeps_enter ⟨fun _ h => h, fun r h => ⟨?_, h.2⟩,
    fun _ _ h => h, fun _ h => ⟨hpower, h.2⟩⟩ interrupt
  rw [Status.has_put_of_ne _ _ (by decide), Status.has_put_of_ne _ _ (by decide)]
  exact h.1

theorem high_tick {table : OpcodeTable} {machine : Machine μ}
    (hnarrow : machine.registers.p.has .narrowAccumulator = true)
    (hcovers : ∀ instruction r, executed? table machine = some (instruction, r) →
      ¬instruction.UncoversHigh r) :
    Word.high (tick table machine).2.registers.a = Word.high machine.registers.a := by
  have hentered := keeps_narrow_acknowledge machine ⟨hnarrow, rfl⟩
  rw [tick_eq, bind_apply]
  rcases hentry : acknowledge machine with ⟨answer, entered⟩
  rw [hentry] at hentered
  cases answer with
  | error error => exact hentered.2
  | ok taken =>
      refine (high_proceed hentered.1 fun instruction fetched hrunning hfetch =>
        hcovers instruction fetched.registers ?_).trans hentered.2
      simp [executed?, hentry, hrunning, hfetch]

end Run

end Execution

namespace Processor

open Execution

variable {μ : Type}

theorem registers_execute (work : Execution μ Unit) (processor : Processor) (memory : μ) :
    (processor.execute work memory).2.1.registers =
      (work (processor.machine memory)).2.registers := by
  rcases hwork : work (processor.machine memory) with ⟨answer, after⟩
  cases answer with
  | ok => rw [execute_of_ok hwork]
  | error error => rw [execute_of_error hwork]

variable [Memory μ]

-- Under 8-bit A its high byte survives ticks and resets, whether they fail or not.
theorem high_kept (processor : Processor) (memory : μ)
    (hnarrow : processor.registers.p.has .narrowAccumulator = true) :
    ((∀ instruction r,
      executed? processor.opcodes (processor.machine memory) = some (instruction, r) →
        ¬instruction.UncoversHigh r) →
      Word.high (processor.tick memory).2.1.registers.a = Word.high processor.registers.a) ∧
    Word.high (processor.reset memory).2.1.registers.a = Word.high processor.registers.a := by
  refine ⟨fun hcovers => ?_, ?_⟩
  · rw [tick, registers_execute]
    exact high_tick hnarrow hcovers
  · rw [reset, registers_execute]
    exact keeps_hasHigh_enter .reset (processor.machine memory) rfl

-- A load in the first tick.
theorem high_kept_lda :
    let processor : Processor := ⟨{ Registers.powerOn with a := 0x1234 }, {}, .standard, 0⟩
    let memory : FlatMemory := ⟨fun _ => 0xA9⟩
    processor.registers.p.has .narrowAccumulator = true ∧
      Word.high (processor.tick memory).2.1.registers.a = 0x12 ∧
      Word.low (processor.tick memory).2.1.registers.a = 0xA9 ∧
      Word.high (processor.reset memory).2.1.registers.a = 0x12 := by
  intro processor memory
  have hnarrow : processor.registers.p.has .narrowAccumulator = true := by decide
  have hexecuted : executed? processor.opcodes (processor.machine memory) =
      some (⟨⟨0xA9, .lda, .accumulatorConstant, 2⟩, ⟨0, 0⟩, .byteConstant 0xA9⟩,
        { processor.registers with pc := 2 }) := by decide +kernel
  obtain ⟨htick, hreset⟩ := high_kept processor memory hnarrow
  have hhigh : Word.high processor.registers.a = 0x12 := by decide
  refine ⟨hnarrow, (htick fun instruction r hsome => ?_).trans hhigh, by decide +kernel,
    hreset.trans hhigh⟩
  rw [hexecuted] at hsome
  cases hsome
  decide

-- STX on A itself, which a table may ask for, stores all 16 bits of X.
theorem high_lost_stx :
    let processor : Processor := ⟨{ Registers.powerOn with
      a := 0x1234, x := 0xABCD, p := ⟨0x20⟩, emulation := false }, {},
      OpcodeTable.standard.insert ⟨0x1A, .stx, .accumulator, 2⟩, 0⟩
    let memory : FlatMemory := ⟨fun _ => 0x1A⟩
    processor.registers.p.has .narrowAccumulator = true ∧
      (∃ instruction r,
        executed? processor.opcodes (processor.machine memory) = some (instruction, r) ∧
          instruction.operation.mnemonic ∉ [.xba, .tsc, .tdc, .mvn, .mvp]) ∧
      Word.high (processor.tick memory).2.1.registers.a ≠ Word.high processor.registers.a := by
  intro processor memory
  have hexecuted : executed? processor.opcodes (processor.machine memory) =
      some (⟨⟨0x1A, .stx, .accumulator, 2⟩, ⟨0, 0⟩, .accumulator⟩,
        { processor.registers with pc := 1 }) := by decide +kernel
  exact ⟨by decide, ⟨_, _, hexecuted, by decide⟩, by decide +kernel⟩

end Processor

end Console816
