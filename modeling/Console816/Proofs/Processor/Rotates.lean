import Mathlib.Data.List.Induction
import Console816.Proofs.Arithmetic.Rotation
import Console816.Proofs.Processor.FlatCode
import Console816.Proofs.Processor.FlatPlaces
import Console816.Proofs.Processor.InstructionStream

namespace Console816

-- Nothing keeps the next tick from running an instruction, and nothing comes before it.
structure Machine.IsFree {μ : Type} (machine : Machine μ) : Prop where
  running : machine.interrupts.isHalted = false
  next : machine.interrupts.next (machine.registers.p.has .irqDisable) = none

namespace Execution

variable {μ : Type} [Memory μ]

-- The same work, that many times.
def times (work : Execution μ Unit) : Nat → Execution μ Unit
  | 0 => return
  | count + 1 => do
    times work count
    work

theorem tick_of_isFree {machine : Machine μ} (hfree : machine.IsFree) (table : OpcodeTable) :
    tick table machine = dispatch table machine := by
  have hpoll := InterruptState.poll_of_next hfree.running hfree.next
  rw [tick_eq, bind_of_ok (acknowledge_none hpoll), proceed_of_running hfree.running]
  rfl

end Execution

namespace Mode

-- The modes of ROL and ROR.
def isRotated : Mode → Bool
  | accumulator | direct | directX | absolute | absoluteX => true
  | _ => false

end Mode

def Rotation.mnemonic : Rotation → Mnemonic
  | left => .rol
  | right => .ror

theorem Rotation.action_mnemonic (rotation : Rotation) :
    rotation.mnemonic.action = .shift rotation.shift := by
  cases rotation <;> rfl

theorem OpcodeTable.matrix_rotates :
    (matrix.toList.all fun row => !(row.1 == .rol || row.1 == .ror) || row.2.1.isRotated) =
      true := by
  decide +kernel

-- ROL or ROR as it is found in memory.
structure Rotate where
  rotation : Rotation
  operation : Operation
  operand : Operand

namespace Rotate

open Execution

def code (rotate : Rotate) : List UInt8 := rotate.operation.opcode :: rotate.operand.encoding

-- What it does to the data at its place.
def apply (rotate : Rotate) (place : Location) (context : Context) : Context :=
  let r := context.registers
  place.shifted rotate.rotation.shift
    { context with registers := { r with pc := r.pc + rotate.code.length.toUInt16 } }

-- The table knows it, and its operand has the mode that the table gives it.
structure IsCoded (rotate : Rotate) (p : Status) : Prop where
  known : OpcodeTable.standard.get? rotate.operation.opcode = some rotate.operation
  mnemonic : rotate.operation.mnemonic = rotate.rotation.mnemonic
  decodes : rotate.operation.mode.Decodes p rotate.operand

-- It rotates what is at the place, which no pointer leads to.
structure WorksOn (rotate : Rotate) (place : Location) (r : Registers) : Prop
    extends IsCoded rotate r.p where
  locates : rotate.operand.Locates r [] place

-- The places that it can have.
inductive Names (r : Registers) : Operand → Location → Prop
  | accumulator : Names r .accumulator .accumulator
  | direct (offset : UInt8) : Names r (.direct offset) (.memory (r.directCell offset))
  | directX (offset : UInt8) :
      Names r (.directX offset) (.memory ((r.directCell offset).advance r.indexX))
  | absolute (offset : UInt16) : Names r (.absolute offset) (.memory ⟨r.dbr, offset⟩)
  | absoluteX (offset : UInt16) :
      Names r (.absoluteX offset) (.memory (Address.advance ⟨r.dbr, offset⟩ r.indexX))

namespace Names

variable {r : Registers} {operand : Operand} {place : Location} (hnames : Names r operand place)
include hnames

theorem not_constant : place.isConstant = false := by
  cases hnames <;> rfl

theorem locates : operand.Locates r [] place := by
  cases hnames with
  | accumulator => exact .accumulator
  | direct offset => exact .memory (.direct offset)
  | directX offset =>
      rw [Operand.indexX_eq]
      exact .memory (.directX offset)
  | absolute offset => exact .memory (.absolute offset)
  | absoluteX offset =>
      rw [Operand.indexX_eq]
      exact .memory (.absoluteX offset)

theorem eq_of_locates {other : Location} (hlocates : operand.Locates r [] other) :
    other = place := by
  cases hnames with
  | accumulator =>
      cases hlocates with
      | accumulator => rfl
      | memory hfinds => cases hfinds
  | direct | absolute =>
      cases hlocates with
      | memory hfinds =>
          cases hfinds
          rfl
  | directX | absoluteX =>
      cases hlocates with
      | memory hfinds =>
          cases hfinds
          rw [Operand.indexX_eq]
          rfl

-- Only D, X and the data bank matter.
theorem of_same {r' : Registers} (hd : r'.d = r.d) (hdbr : r'.dbr = r.dbr)
    (hx : r'.indexX = r.indexX) : Names r' operand place := by
  have hcell (offset : UInt8) : r.directCell offset = r'.directCell offset := by
    rw [Registers.directCell, Registers.directCell, hd]
  cases hnames with
  | accumulator => exact .accumulator
  | direct offset =>
      rw [hcell]
      exact .direct offset
  | directX offset =>
      rw [hcell, ← hx]
      exact .directX offset
  | absolute offset =>
      rw [← hdbr]
      exact .absolute offset
  | absoluteX offset =>
      rw [← hdbr, ← hx]
      exact .absoluteX offset

theorem locate {operation : Operation} {opcodeAt : Address} {interrupts : InterruptState}
    {memory : FlatMemory} (cycles : Nat) :
    ∃ spent, locate ⟨operation, opcodeAt, operand⟩ ⟨r, interrupts, memory, cycles⟩ =
      (.ok place, ⟨r, interrupts, memory, spent⟩) := by
  cases hnames <;> exact ⟨_, rfl⟩

end Names

theorem IsCoded.exists_names {rotate : Rotate} {r : Registers} (hcoded : rotate.IsCoded r.p) :
    ∃ place, Names r rotate.operand place := by
  have hmode : rotate.operation.mode.isRotated = true := by
    have hrow := List.all_eq_true.mp OpcodeTable.matrix_rotates _
      (OpcodeTable.row_of_standard hcoded.known).2
    rw [hcoded.mnemonic] at hrow
    cases hrotation : rotate.rotation <;> simpa [hrotation, Rotation.mnemonic] using hrow
  obtain ⟨rotation, operation, operand⟩ := rotate
  obtain ⟨-, -, hdecodes⟩ := hcoded
  dsimp only at hmode hdecodes ⊢
  cases operand with
  | accumulator => exact ⟨_, .accumulator⟩
  | direct offset => exact ⟨_, .direct offset⟩
  | directX offset => exact ⟨_, .directX offset⟩
  | absolute offset => exact ⟨_, .absolute offset⟩
  | absoluteX offset => exact ⟨_, .absoluteX offset⟩
  | constant => rcases hdecodes with ⟨h, -⟩ | ⟨h, -⟩ <;> simp [h, Mode.isRotated] at hmode
  | byteConstant => rcases hdecodes with h | ⟨h, -⟩ | ⟨h, -⟩ <;> simp [h, Mode.isRotated] at hmode
  | _ =>
      rw [show operation.mode = _ from hdecodes] at hmode
      cases hmode

theorem IsCoded.exists_worksOn {rotate : Rotate} {r : Registers} (hcoded : rotate.IsCoded r.p) :
    ∃ place, rotate.WorksOn place r := by
  obtain ⟨place, hnames⟩ := hcoded.exists_names
  exact ⟨place, hcoded, hnames.locates⟩

namespace WorksOn

variable {rotate : Rotate} {place : Location} {r : Registers} (hworks : rotate.WorksOn place r)
include hworks

theorem names : Names r rotate.operand place := by
  obtain ⟨other, hnames⟩ := hworks.toIsCoded.exists_names
  rw [hnames.eq_of_locates hworks.locates]
  exact hnames

theorem of_same {r' : Registers} (hwidths : r'.p.SameWidths r.p) (hd : r'.d = r.d)
    (hdbr : r'.dbr = r.dbr) (hx : r'.x = r.x) : rotate.WorksOn place r' := by
  have hindex : r'.indexX = r.indexX := by
    rw [Registers.indexX, Registers.indexX, Registers.indexWidth, Registers.indexWidth,
      Status.indexWidth, Status.indexWidth, hwidths.2, hx]
  exact
    { hworks with
      decodes := Mode.decodes_of_sameWidths hwidths hworks.decodes
      locates := (hworks.names.of_same hd hdbr hindex).locates }

omit hworks in
theorem dispatch {machine : Machine FlatMemory} (hworks : rotate.WorksOn place machine.registers)
    (hlies : machine.memory.Lies ⟨machine.registers.k, machine.registers.pc⟩ rotate.code) :
    ∃ after, dispatch .standard machine = (.ok (), after) ∧
      after.context = rotate.apply place machine.context ∧
      after.interrupts = machine.interrupts := by
  obtain ⟨r, interrupts, memory, cycles⟩ := machine
  let moved := { r with pc := r.pc + rotate.code.length.toUInt16 }
  let instruction : Instruction := ⟨rotate.operation, ⟨r.k, r.pc⟩, rotate.operand⟩
  have hlength : rotate.code.length = rotate.operation.size r.p :=
    size_of_decodes hworks.decodes
  have hsize : r.past rotate.operation = moved := by
    rw [Registers.past, ← hlength]
  have hfetch : fetch .standard ⟨r, interrupts, memory, cycles⟩ =
      (.ok instruction, ⟨moved, interrupts, memory, cycles⟩) := by
    rw [← hsize]
    exact fetch_of_lies hworks.known hworks.decodes hlies
  have hnames : Names moved rotate.operand place := hworks.names.of_same rfl rfl rfl
  obtain ⟨spent, hlocate⟩ : ∃ spent, locate instruction ⟨moved, interrupts, memory,
      cycles + baseCycles rotate.operation⟩ = (.ok place, ⟨moved, interrupts, memory, spent⟩) :=
    hnames.locate _
  have haction : instruction.operation.mnemonic.action = .shift rotate.rotation.shift := by
    rw [hworks.mnemonic, Rotation.action_mnemonic]
  obtain ⟨after, hshift, hafter⟩ := shift_flat hnames.not_constant hlocate
  refine ⟨after, ?_, hafter⟩
  rw [Execution.dispatch, bind_of_ok hfetch, run_shift haction]
  exact hshift

end WorksOn

section Apply

variable (rotate : Rotate) (place : Location) (context : Context)

theorem apply_registers : (rotate.apply place context).registers =
    { context.registers with
      a := (rotate.apply place context).registers.a
      p := (rotate.apply place context).registers.p
      pc := context.registers.pc + rotate.code.length.toUInt16 } := by
  rw [apply, Location.shifted, Location.registers_put]

variable {width : Width} (hwidth : context.registers.accumulatorWidth = width)
include hwidth

theorem apply_flags : (rotate.apply place context).registers.p =
    (context.registers.p.put .carry
      (rotate.rotation.shift.carryOut width (place.data width context))).describe width
      (rotate.rotation.shift.value width (context.registers.p.has .carry)
        (place.data width context)) := by
  subst hwidth
  rw [apply, Location.shifted, Location.registers_put]
  simp only [Location.data_pc]
  rfl

theorem apply_of_flag {flag : Flag} (hflag : flag ∉ [.carry, .zero, .negative]) :
    (rotate.apply place context).registers.p.has flag = context.registers.p.has flag := by
  simp only [List.mem_cons, List.not_mem_nil, or_false, not_or] at hflag
  obtain ⟨hcarry, hzero, hnegative⟩ := hflag
  rw [rotate.apply_flags place context hwidth, Status.has_describe_of_ne _ _ _ hzero hnegative,
    Status.has_put_of_ne _ _ hcarry]

variable (hplace : place.isConstant = false)
include hplace

theorem apply_data : place.data width (rotate.apply place context) =
    width.truncate (rotate.rotation.shift.value width (context.registers.p.has .carry)
      (place.data width context)) := by
  subst hwidth
  rw [apply, Location.shifted]
  simp only [Location.data_pc]
  exact Location.data_put _ _ _ hplace

theorem apply_ring {k : Nat} (hk : k ≤ width.bits) :
    width.ringBit ((rotate.apply place context).registers.p.has .carry)
        (place.data width (rotate.apply place context)) k =
      width.ringBit (context.registers.p.has .carry) (place.data width context)
        ((k + rotate.rotation.turn width) % (width.bits + 1)) := by
  have hcarry : (rotate.apply place context).registers.p.has .carry =
      rotate.rotation.shift.carryOut width (place.data width context) := by
    rw [rotate.apply_flags place context hwidth,
      Status.has_describe_of_ne _ _ _ (by decide) (by decide), Status.has_put_self]
  rw [hcarry, rotate.apply_data place context hwidth hplace,
    Rotation.ringBit_rotate _ (place.truncate_data _ _) hk]

theorem apply_zero : (rotate.apply place context).registers.p.has .zero =
    (place.data width (rotate.apply place context) == 0) := by
  rw [rotate.apply_flags place context hwidth, rotate.apply_data place context hwidth hplace,
    Status.describe, Status.has_put_of_ne _ _ (by decide), Status.has_put_self]

theorem apply_negative : (rotate.apply place context).registers.p.has .negative =
    (place.data width (rotate.apply place context)).toNat.testBit (width.bits - 1) := by
  rw [rotate.apply_flags place context hwidth, rotate.apply_data place context hwidth hplace,
    Status.describe, Status.has_put_self, Width.and_signBit_ne_zero,
    Width.testBit_truncate (Nat.sub_lt width.bits_pos Nat.one_pos)]

end Apply

def codes (rotates : List Rotate) : List UInt8 := rotates.flatMap code

theorem codes_snoc (rotates : List Rotate) (rotate : Rotate) :
    codes (rotates ++ [rotate]) = codes rotates ++ rotate.code := by
  simp [codes]

-- What rotates of one place have made of it, and of all else, when they have been executed in a
-- row.
structure Turned (width : Width) (place : Location) (rotates : List Rotate)
    (start after : Context) : Prop where
  -- the data and C are a ring, which each rotate turns by one bit
  ring : ∀ k ≤ width.bits,
    width.ringBit (after.registers.p.has .carry) (place.data width after) k =
      width.ringBit (start.registers.p.has .carry) (place.data width start)
        ((k + Rotation.turns width (rotates.map rotation)) % (width.bits + 1))
  -- Z and N describe what was written last
  zero : rotates ≠ [] → after.registers.p.has .zero = (place.data width after == 0)
  negative : rotates ≠ [] →
    after.registers.p.has .negative = (place.data width after).toNat.testBit (width.bits - 1)
  flags : ∀ flag ∉ [.carry, .zero, .negative],
    after.registers.p.has flag = start.registers.p.has flag
  registers : after.registers =
    { start.registers with
      a := after.registers.a
      p := after.registers.p
      pc := start.registers.pc + (codes rotates).length.toUInt16 }
  accumulator : place ≠ .accumulator → after.registers.a = start.registers.a
  high : width = .byte → Word.high after.registers.a = Word.high start.registers.a
  memory : ∀ address ∉ place.cells width,
    after.memory.byte address = start.memory.byte address

-- Memory, A and C are what they were, and so is the data.
structure Restored (width : Width) (place : Location) (start after : Context) : Prop where
  data : place.data width after = place.data width start
  carry : after.registers.p.has .carry = start.registers.p.has .carry
  accumulator : after.registers.a = start.registers.a
  memory : after.memory = start.memory

namespace Turned

variable {width : Width} {place : Location} {rotates : List Rotate} {start before after : Context}

theorem nil (width : Width) (place : Location) (start : Context) :
    Turned width place [] start start where
  ring k hk := by
    rw [List.map_nil, Rotation.turns_nil, Nat.add_zero, Nat.mod_eq_of_lt (Nat.lt_succ_of_le hk)]
  zero hne := absurd rfl hne
  negative hne := absurd rfl hne
  flags _ _ := rfl
  registers := by
    have hpc : start.registers.pc + (codes []).length.toUInt16 = start.registers.pc :=
      UInt16.add_zero _
    rw [hpc]
  accumulator _ := rfl
  high _ := rfl
  memory _ _ := rfl

theorem sameWidths (hturned : Turned width place rotates start after) :
    after.registers.p.SameWidths start.registers.p :=
  ⟨hturned.flags .narrowAccumulator (by decide), hturned.flags .narrowIndex (by decide)⟩

theorem snoc (hturned : Turned width place rotates start before)
    (hwidth : start.registers.accumulatorWidth = width) (hplace : place.isConstant = false)
    (rotate : Rotate) :
    Turned width place (rotates ++ [rotate]) start (rotate.apply place before) := by
  have hwidth : before.registers.accumulatorWidth = width := by
    rw [← hwidth, Registers.accumulatorWidth, Registers.accumulatorWidth, Status.accumulatorWidth,
      Status.accumulatorWidth, hturned.sameWidths.1]
  exact {
    ring := fun k hk => by
      have hturns : Rotation.turns width ((rotates ++ [rotate]).map rotation) =
          Rotation.turns width (rotates.map rotation) + rotate.rotation.turn width := by
        rw [List.map_append, Rotation.turns_append]
        rfl
      rw [rotate.apply_ring place before hwidth hplace hk,
        hturned.ring _ (Nat.le_of_lt_succ (Nat.mod_lt _ (Nat.succ_pos _))), hturns,
        Nat.mod_add_mod, Nat.add_assoc, Nat.add_comm (rotate.rotation.turn _)]
    zero := fun _ => rotate.apply_zero place before hwidth hplace
    negative := fun _ => rotate.apply_negative place before hwidth hplace
    flags := fun flag hflag =>
      (rotate.apply_of_flag place before hwidth hflag).trans (hturned.flags flag hflag)
    registers := by
      have hpc : start.registers.pc + (codes (rotates ++ [rotate])).length.toUInt16 =
          before.registers.pc + rotate.code.length.toUInt16 := by
        rw [codes_snoc, List.length_append, congrArg Registers.pc hturned.registers,
          UInt16.add_assoc]
        exact congrArg (start.registers.pc + ·) (UInt16.ofNat_add _ _)
      rw [hpc]
      refine (rotate.apply_registers place before).trans ?_
      rw [hturned.registers]
    accumulator := fun hne => (place.a_put _ _ _ hne).trans (hturned.accumulator hne)
    high := fun hbyte =>
      (place.high_a_put _ _ _ (hwidth.trans hbyte)).trans (hturned.high hbyte)
    memory := fun address hout =>
      (place.memory_put _ _ _ (hwidth.symm ▸ hout)).trans (hturned.memory address hout) }

-- The next rotate is fetched and located as if none had come before it.

theorem worksOn (hturned : Turned width place rotates start after) {rotate : Rotate}
    (hworks : rotate.WorksOn place start.registers) : rotate.WorksOn place after.registers := by
  have hd : after.registers.d = start.registers.d := by rw [hturned.registers]
  have hdbr : after.registers.dbr = start.registers.dbr := by rw [hturned.registers]
  have hx : after.registers.x = start.registers.x := by rw [hturned.registers]
  exact hworks.of_same hturned.sameWidths hd hdbr hx

theorem lies (hturned : Turned width place rotates start after) {bytes : List UInt8}
    (hlies : start.memory.Lies ⟨start.registers.k, start.registers.pc⟩ (codes rotates ++ bytes))
    (hapart : ∀ i < (codes rotates ++ bytes).length,
      Address.advance ⟨start.registers.k, start.registers.pc⟩ i.toUInt16 ∉ place.cells width) :
    after.memory.Lies ⟨after.registers.k, after.registers.pc⟩ bytes := by
  have haddress : (⟨after.registers.k, after.registers.pc⟩ : Address) =
      Address.advance ⟨start.registers.k, start.registers.pc⟩
        (codes rotates).length.toUInt16 := by
    rw [hturned.registers]
    rfl
  rw [haddress]
  refine (FlatMemory.lies_append.mp hlies).2.of_same fun i hi => hturned.memory _ ?_
  rw [Address.advance_add]
  refine hapart _ ?_
  rw [List.length_append]
  exact Nat.add_lt_add_left hi _

-- All around the ring, everything is back where it was.
theorem restored (hturned : Turned width place rotates start after)
    (hreturns : Rotation.Returns width (rotates.map rotation)) :
    Restored width place start after := by
  have hring (k : Nat) (hk : k ≤ width.bits) :
      width.ringBit (after.registers.p.has .carry) (place.data width after) k =
        width.ringBit (start.registers.p.has .carry) (place.data width start) k := by
    rw [hturned.ring k hk, Nat.add_mod, hreturns, Nat.add_zero, Nat.mod_mod,
      Nat.mod_eq_of_lt (Nat.lt_succ_of_le hk)]
  obtain ⟨hcarry, hdata⟩ := Width.eq_of_ringBit (place.truncate_data _ _)
    (place.truncate_data _ _) hring
  exact ⟨hdata, hcarry, place.a_eq hdata hturned.accumulator hturned.high,
    place.memory_eq hdata hturned.memory⟩

end Turned

variable {place : Location} {rotates : List Rotate} {start : Machine FlatMemory}

-- By induction from the right: the rotates before the last one change nothing that it is fetched
-- or located by.
theorem execute (hworks : ∀ rotate ∈ rotates, rotate.WorksOn place start.registers)
    (hlies : start.memory.Lies ⟨start.registers.k, start.registers.pc⟩ (codes rotates))
    (hapart : ∀ i < (codes rotates).length,
      Address.advance ⟨start.registers.k, start.registers.pc⟩ i.toUInt16 ∉
        place.cells start.registers.accumulatorWidth) :
    ∃ after, times (dispatch .standard) rotates.length start = (.ok (), after) ∧
      (start.IsFree → times (tick .standard) rotates.length start = (.ok (), after)) ∧
      Turned start.registers.accumulatorWidth place rotates start.context after.context ∧
      after.interrupts = start.interrupts := by
  induction rotates using List.reverseRecOn with
  | nil => exact ⟨start, rfl, fun _ => rfl, Turned.nil .., rfl⟩
  | append_singleton rotates rotate ih =>
      rw [codes_snoc] at hlies hapart
      obtain ⟨before, hdispatched, hticked, hturned, hinterrupts⟩ :=
        ih (fun rotate hmem => hworks rotate (List.mem_append_left _ hmem))
          (FlatMemory.lies_append.mp hlies).1
          fun i hi => hapart i (List.length_append ▸ Nat.lt_add_right _ hi)
      have hlast := hworks rotate (List.mem_append_right _ (List.mem_singleton_self _))
      obtain ⟨after, hdispatch, hcontext, hkept⟩ :=
        WorksOn.dispatch (hturned.worksOn hlast) (hturned.lies hlies hapart)
      have hlength : (rotates ++ [rotate]).length = rotates.length + 1 := List.length_append
      rw [hlength]
      refine ⟨after, (bind_of_ok hdispatched).trans hdispatch, fun hfree => ?_, ?_,
        hkept.trans hinterrupts⟩
      · have hbefore : before.IsFree := by
          refine ⟨hinterrupts ▸ hfree.running, ?_⟩
          rw [hinterrupts]
          exact (congrArg _ (hturned.flags .irqDisable (by decide))).trans hfree.next
        exact (bind_of_ok (hticked hfree)).trans ((tick_of_isFree hbefore _).trans hdispatch)
      · rw [hcontext]
        exact hturned.snoc rfl hlast.names.not_constant rotate

-- Rotates that follow each other, and spare their own code, turn the ring of the data and C by one
-- bit each and change nothing else. What turns it all around, as one to the left and one to the
-- right do or as many of either as the ring has bits, brings everything back.
theorem rotates_turn_ring (hworks : ∀ rotate ∈ rotates, rotate.WorksOn place start.registers)
    (hlies : start.memory.Lies ⟨start.registers.k, start.registers.pc⟩ (codes rotates))
    (hapart : ∀ i < (codes rotates).length,
      Address.advance ⟨start.registers.k, start.registers.pc⟩ i.toUInt16 ∉
        place.cells start.registers.accumulatorWidth) :
    let width := start.registers.accumulatorWidth
    (∀ rotate : Rotate, rotate.IsCoded start.registers.p →
      ∃ place, rotate.WorksOn place start.registers) ∧
    (∀ rotations ∈ [[Rotation.left, .right], [.right, .left],
      List.replicate (width.bits + 1) .left, List.replicate (width.bits + 1) .right],
      Rotation.Returns width rotations) ∧
    ∀ count ≤ rotates.length, ∃ after,
      times (dispatch .standard) count start = (.ok (), after) ∧
      (start.IsFree → times (tick .standard) count start = (.ok (), after)) ∧
      Turned width place (rotates.take count) start.context after.context ∧
      after.interrupts = start.interrupts ∧
      (Rotation.Returns width ((rotates.take count).map rotation) →
        Restored width place start.context after.context) := by
  refine ⟨fun _ => IsCoded.exists_worksOn, fun _ => Rotation.returns_of_mem, fun count hcount => ?_⟩
  have hcodes : codes rotates = codes (rotates.take count) ++ codes (rotates.drop count) := by
    rw [codes, codes, codes, ← List.flatMap_append, List.take_append_drop]
  rw [hcodes] at hlies hapart
  obtain ⟨after, hdispatched, hticked, hturned, hinterrupts⟩ :=
    execute (fun rotate hmem => hworks rotate (List.mem_of_mem_take hmem))
      (FlatMemory.lies_append.mp hlies).1
      fun i hi => hapart i (List.length_append ▸ Nat.lt_add_right _ hi)
  rw [List.length_take_of_le hcount] at hdispatched hticked
  exact ⟨after, hdispatched, hticked, hturned, hinterrupts, hturned.restored⟩

-- A word across the end of bank 0, once by the direct page and once by its address.
theorem rotates_turn_ring_wrapping :
    let rotates : List Rotate :=
      [⟨.left, ⟨0x26, .rol, .direct, 5⟩, .direct 0x0F⟩,
        ⟨.right, ⟨0x6E, .ror, .absolute, 6⟩, .absolute 0xFFFF⟩]
    let memory : FlatMemory := ⟨fun address =>
      match address.offset with
      | 0x8000 => 0x26
      | 0x8001 => 0x0F
      | 0x8002 => 0x6E
      | 0x8003 | 0x8004 => 0xFF
      | 0xFFFF => 0x81
      | _ => 0x40⟩
    let r : Registers := { Registers.powerOn with
      d := 0xFFF0, pc := 0x8000, p := ⟨0x01⟩, emulation := false }
    let start : Machine FlatMemory := ⟨r, {}, memory, 0⟩
    let place : Location := .memory ⟨0, 0xFFFF⟩
    (∀ rotate ∈ rotates, rotate.WorksOn place r) ∧ memory.Lies ⟨0, 0x8000⟩ (codes rotates) ∧
      start.IsFree ∧
      ∃ after, times (tick .standard) 2 start = (.ok (), after) ∧
        Restored .word place start.context after.context ∧
        place.data .word after.context = 0x4081 ∧ after.registers.p.has .negative = false := by
  intro rotates memory r start place
  have hworks : ∀ rotate ∈ rotates, rotate.WorksOn place r := by
    intro rotate hmem
    simp only [rotates, List.mem_cons, List.not_mem_nil, or_false] at hmem
    rcases hmem with rfl | rfl
    · exact ⟨⟨by decide +kernel, rfl, rfl⟩, .memory (.direct 0x0F)⟩
    · exact ⟨⟨by decide +kernel, rfl, rfl⟩, .memory (.absolute 0xFFFF)⟩
  have hlies : memory.Lies ⟨0, 0x8000⟩ (codes rotates) := by decide +kernel
  have hfree : start.IsFree := ⟨rfl, by decide⟩
  have hapart : ∀ i < (codes rotates).length,
      Address.advance ⟨0, 0x8000⟩ i.toUInt16 ∉ place.cells r.accumulatorWidth := by
    decide +kernel
  have hwidth : r.accumulatorWidth = .word := by decide
  obtain ⟨-, hloops, hruns⟩ := @rotates_turn_ring place rotates start hworks hlies hapart
  rw [hwidth] at hloops hruns
  obtain ⟨after, -, htick, hturned, -, hrestored⟩ := hruns 2 (by decide)
  have hback := hrestored (hloops _ (.head _))
  have hdata : place.data .word after.context = 0x4081 := hback.data.trans (by decide +kernel)
  have hnegative := hturned.negative nofun
  rw [hdata] at hnegative
  exact ⟨hworks, hlies, hfree, after, htick hfree, hback, hdata, hnegative.trans (by decide)⟩

end Rotate

end Console816
