import Console816.Processor.Step
import Console816.Proofs.Instruction.Matrix
import Console816.Proofs.Processor.Operands

namespace Console816

-- How long an instruction takes, told from its mnemonic, its mode and the registers before it.

def Interrupt.entryTime (emulation : Bool) : Interrupt → Nat
  | reset => 7
  | nmi | abort | irq | brk | cop => if emulation then 7 else 8

namespace Mode

def isDirect : Mode → Bool
  | direct | directX | directY | directXIndirect | directIndirect | directIndirectY
  | directIndirectLong | directIndirectLongY => true
  | _ => false

-- These take longer with 16-bit index registers.
def isIndexed : Mode → Bool
  | absoluteX | absoluteY | directIndirectY => true
  | _ => false

def penalty (r : Registers) (mode : Mode) : Nat :=
  (if mode.isDirect && Word.low r.d != 0 then 1 else 0) +
    if mode.isIndexed && !r.p.has .narrowIndex then 1 else 0

end Mode

namespace Mnemonic

-- They move a word of data with 16-bit registers, through A or through an index register.

def movesAccumulator : Mnemonic → Bool
  | adc | sbc | and | ora | eor | cmp | bit | lda | sta | stz | pha | pla => true
  | _ => false

def movesIndex : Mnemonic → Bool
  | cpx | cpy | ldx | ldy | stx | sty | phx | phy | plx | ply => true
  | _ => false

-- They move it twice, unless they work on A itself.
def replaces : Mnemonic → Bool
  | asl | lsr | rol | ror | inc | dec | tsb | trb => true
  | _ => false

-- BRL takes the same time whether short branches are taken or not.
def takesBranch (p : Status) : Mnemonic → Bool
  | bcc => !p.has .carry
  | bcs => p.has .carry
  | bne => !p.has .zero
  | beq => p.has .zero
  | bpl => !p.has .negative
  | bmi => p.has .negative
  | bvc => !p.has .overflow
  | bvs => p.has .overflow
  | bra => true
  | _ => false

def surcharge (r : Registers) (mode : Mode) (mnemonic : Mnemonic) : Nat :=
  (if mnemonic.movesAccumulator && !r.p.has .narrowAccumulator then 1 else 0) +
  (if mnemonic.movesIndex && !r.p.has .narrowIndex then 1 else 0) +
  (if mnemonic.replaces && mode != .accumulator && !r.p.has .narrowAccumulator then 2 else 0) +
  (if mnemonic.takesBranch r.p then 1 else 0) +
  (if mnemonic = rti ∧ r.emulation = false then 1 else 0) +
  if mnemonic = mvn ∨ mnemonic = mvp then 7 * r.a.toNat else 0

end Mnemonic

def Operation.time (r : Registers) (operation : Operation) : Nat :=
  match operation.mnemonic with
  | .brk => Interrupt.brk.entryTime r.emulation
  | .cop => Interrupt.cop.entryTime r.emulation
  | mnemonic =>
    operation.cycles.toNat + operation.mode.penalty r + mnemonic.surcharge r operation.mode

-- The same from what the instruction does.

namespace Action

-- It pays for finding its data. The other actions have none, or jump there.
def findsData : Action → Bool
  | add | subtract | conjoin | disjoin | exclude | compare _ | testBits | putBits _ | shift _
  | step _ | load _ | store _ | storeZero | pushAddress => true
  | _ => false

def surcharge (r : Registers) (operand : Operand) : Action → Nat
  | add | subtract | conjoin | disjoin | exclude | testBits | storeZero =>
    if r.accumulatorWidth.isWord then 1 else 0
  | compare register | load register | store register | push (.data register)
  | pull (.data register) => if (r.dataWidth register).isWord then 1 else 0
  | putBits _ => if r.accumulatorWidth.isWord then 2 else 0
  | shift _ | step _ =>
    if operand = .accumulator then 0 else if r.accumulatorWidth.isWord then 2 else 0
  | branch condition extra => if condition.holds r.p then extra else 0
  | blockMove _ => 7 * r.a.toNat
  | returnInterrupt => if r.emulation then 0 else 1
  | raise interrupt => interrupt.entryTime r.emulation
  | _ => 0

end Action

-- No mode with a penalty goes with an action that does not pay it, and TSB and TRB do not work on
-- A.
theorem OpcodeTable.matrix_penalties :
    (matrix.toList.all fun (mnemonic, mode, _) =>
      (mnemonic.action.findsData || !(mode.isDirect || mode.isIndexed)) &&
        !((mnemonic == .tsb || mnemonic == .trb) && mode == .accumulator)) = true := by
  decide +kernel

section Standard

variable {opcode : UInt8} {operation : Operation}
  (hget : OpcodeTable.standard.get? opcode = some operation)
include hget

theorem OpcodeTable.penalty_of_standard
    (hfinds : operation.mnemonic.action.findsData = false) (r : Registers) :
    operation.mode.penalty r = 0 := by
  have hrow := List.all_eq_true.mp matrix_penalties _ (row_of_standard hget).2
  simp only [hfinds, Bool.false_or, Bool.and_eq_true, Bool.not_eq_true', Bool.or_eq_false_iff]
    at hrow
  simp [Mode.penalty, hrow.1]

theorem OpcodeTable.bits_of_standard
    (hbits : operation.mnemonic = .tsb ∨ operation.mnemonic = .trb) :
    operation.mode ≠ .accumulator := by
  have hrow := List.all_eq_true.mp matrix_penalties _ (row_of_standard hget).2
  rintro hmode
  rcases hbits with hbits | hbits <;> simp [hbits, hmode] at hrow

end Standard

namespace Registers

theorem unalignedDirect_eq (r : Registers) :
    r.unalignedDirect = if Word.low r.d != 0 then 1 else 0 := by
  have hlow : r.d &&& 0xFF = 0 ↔ Word.low r.d = 0 := by
    rw [← UInt16.toNat_inj, ← UInt8.toNat_inj, Word.toNat_lowByte, Word.toNat_low]
    rfl
  by_cases hzero : r.d &&& 0xFF = 0
  · simp [unalignedDirect, hzero, hlow.mp hzero]
  · simp [unalignedDirect, hzero, mt hlow.mpr hzero]

theorem wideIndex_eq (r : Registers) :
    r.wideIndex = if !r.p.has .narrowIndex then 1 else 0 := by
  unfold wideIndex
  cases r.p.has .narrowIndex <;> rfl

theorem isWord_accumulatorWidth (r : Registers) :
    r.accumulatorWidth.isWord = !r.p.has .narrowAccumulator := by
  unfold accumulatorWidth Status.accumulatorWidth
  cases r.p.has .narrowAccumulator <;> rfl

theorem isWord_indexWidth (r : Registers) : r.indexWidth.isWord = !r.p.has .narrowIndex := by
  unfold indexWidth Status.indexWidth
  cases r.p.has .narrowIndex <;> rfl

end Registers

namespace Mode

variable {p : Status} {mode : Mode} {operand : Operand}

-- An operand costs what its mode does.
theorem penalty_of_decodes (hdecodes : mode.Decodes p operand) (r : Registers) :
    operand.penalty r = mode.penalty r := by
  cases operand with
  | constant => rcases hdecodes with ⟨rfl, -⟩ | ⟨rfl, -⟩ <;> rfl
  | byteConstant => rcases hdecodes with rfl | ⟨rfl, -⟩ | ⟨rfl, -⟩ <;> rfl
  | _ =>
      cases hdecodes
      simp [penalty, Operand.penalty, isDirect, isIndexed, r.unalignedDirect_eq, r.wideIndex_eq]

theorem accumulator_of_decodes (hdecodes : mode.Decodes p operand) :
    operand = .accumulator ↔ mode = .accumulator := by
  cases operand with
  | constant => rcases hdecodes with ⟨rfl, -⟩ | ⟨rfl, -⟩ <;> simp
  | byteConstant => rcases hdecodes with rfl | ⟨rfl, -⟩ | ⟨rfl, -⟩ <;> simp
  | _ => cases hdecodes; simp

end Mode

-- TSB and TRB would take as long for A, but cannot work on it.
theorem Mnemonic.surcharge_action {p : Status} {mode : Mode} {operand : Operand}
    (hdecodes : mode.Decodes p operand) (r : Registers) {mnemonic : Mnemonic}
    (hbits : mnemonic = .tsb ∨ mnemonic = .trb → mode ≠ .accumulator)
    (hbrk : mnemonic ≠ .brk) (hcop : mnemonic ≠ .cop) :
    mnemonic.action.surcharge r operand = mnemonic.surcharge r mode := by
  have haccumulator := Mode.accumulator_of_decodes hdecodes
  cases mnemonic with
  | brk => exact absurd rfl hbrk
  | cop => exact absurd rfl hcop
  | tsb | trb =>
      unfold action Action.surcharge
      simp [surcharge, movesAccumulator, movesIndex, replaces, takesBranch,
        r.isWord_accumulatorWidth, hbits]
  | asl | lsr | rol | ror | inc | dec =>
      unfold action Action.surcharge
      simp only [haccumulator]
      by_cases hmode : mode = .accumulator <;>
        simp [surcharge, movesAccumulator, movesIndex, replaces, takesBranch, hmode,
          r.isWord_accumulatorWidth]
  | bcc | bcs | bne | beq | bpl | bmi | bvc | bvs | bra =>
      unfold action Action.surcharge
      simp only [surcharge, movesAccumulator, movesIndex, replaces,
        Bool.false_and, Bool.false_eq_true, reduceCtorEq, false_and, or_self, if_false,
        Nat.zero_add, Nat.add_zero]
      exact ite_congr (by simp [Condition.holds, takesBranch]) (fun _ => rfl) fun _ => rfl
  | rti =>
      unfold action Action.surcharge
      cases hemulation : r.emulation <;>
        simp [surcharge, movesAccumulator, movesIndex, replaces, takesBranch, hemulation]
  | _ =>
      unfold action Action.surcharge
      simp [surcharge, movesAccumulator, movesIndex, replaces, takesBranch, Condition.holds,
        Registers.dataWidth, r.isWord_accumulatorWidth, r.isWord_indexWidth]

theorem Operation.time_eq {opcode : UInt8} {operation : Operation} {p : Status} {operand : Operand}
    (hget : OpcodeTable.standard.get? opcode = some operation)
    (hdecodes : operation.mode.Decodes p operand) (r : Registers) :
    Execution.baseCycles operation +
        (operand.penalty r + operation.mnemonic.action.surcharge r operand) =
      operation.time r := by
  have hpenalty := Mode.penalty_of_decodes hdecodes r
  have hplain := OpcodeTable.penalty_of_standard hget
  have hsurcharge := Mnemonic.surcharge_action hdecodes r (OpcodeTable.bits_of_standard hget)
  unfold Execution.baseCycles time
  rw [hpenalty]
  cases hmnemonic : operation.mnemonic with
  | brk | cop =>
      rw [hmnemonic] at hplain
      rw [hplain rfl r, Nat.zero_add]
      exact Nat.zero_add _
  | _ =>
      rw [hmnemonic] at hsurcharge
      rw [hsurcharge nofun nofun, ← Nat.add_assoc]
      rfl

end Console816
