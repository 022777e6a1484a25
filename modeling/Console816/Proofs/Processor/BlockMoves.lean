import Console816.Proofs.Arithmetic.Digits
import Console816.Proofs.Processor.Footprints

namespace Console816

-- The block moves, from the first byte upwards or from the last byte downwards.
inductive BlockMove where
  | ascending
  | descending
  deriving DecidableEq, Repr

namespace BlockMove

def opcode : BlockMove → UInt8
  | ascending => 0x54
  | descending => 0x44

def mnemonic : BlockMove → Mnemonic
  | ascending => .mvn
  | descending => .mvp

def step : BlockMove → Int
  | ascending => 1
  | descending => -1

-- The step as it is added to X and Y.
def delta : BlockMove → UInt16
  | ascending => 1
  | descending => 0xFFFF

theorem get?_opcode (move : BlockMove) :
    OpcodeTable.standard.get? move.opcode =
      some ⟨move.opcode, move.mnemonic, .blockMove, 7⟩ := by
  cases move <;> decide +kernel

theorem action_mnemonic (move : BlockMove) : move.mnemonic.action = .blockMove move.delta := by
  cases move <;> rfl

-- Where an index register that starts at `first` points after so many bytes.
def offset (move : BlockMove) (width : Width) (first : UInt16) (count : Nat) : UInt16 :=
  width.truncate (first + count.toUInt16 * move.delta)

theorem toNat_offset (move : BlockMove) (width : Width) (first : UInt16) (count : Nat) :
    ((move.offset width first count).toNat : Int) =
      (first.toNat + move.step * count) % 2 ^ width.bits := by
  have hcount : count.toUInt16.toNat = count % 0x10000 := UInt16.toNat_ofNat'
  have hsum : (first + count.toUInt16 * move.delta).toNat =
      (first.toNat + count % 0x10000 * move.delta.toNat) % 0x10000 := by
    rw [UInt16.toNat_add, UInt16.toNat_mul, hcount, Nat.add_mod_mod]
  have hbits : (move.offset width first count).toNat =
      (first.toNat + count % 0x10000 * move.delta.toNat) % 2 ^ width.bits := by
    rw [offset, Width.toNat_truncate, Width.sixteen_pow_digits, hsum]
    exact Nat.mod_mod_of_dvd _ (by cases width <;> decide)
  rw [hbits]
  cases move <;> cases width <;> simp only [delta, step, Width.bits, UInt16.reduceToNat] <;> omega

-- The offsets of so many bytes do not leave the range that an index register counts through.
def Straight (move : BlockMove) (width : Width) (first : UInt16) (count : Nat) : Prop :=
  ∀ i < count, 0 ≤ first.toNat + move.step * i ∧ first.toNat + move.step * i < 2 ^ width.bits

instance (move : BlockMove) (width : Width) (first : UInt16) (count : Nat) :
    Decidable (move.Straight width first count) :=
  inferInstanceAs (Decidable (∀ i < count, _))

-- The target is not ahead of the source, in the direction of the move.
def TargetBehind : BlockMove → UInt16 → UInt16 → Prop
  | ascending, source, target => target ≤ source
  | descending, source, target => source ≤ target

instance (source target : UInt16) :
    (move : BlockMove) → Decidable (move.TargetBehind source target)
  | ascending => inferInstanceAs (Decidable (target ≤ source))
  | descending => inferInstanceAs (Decidable (source ≤ target))

-- What lies ahead in the source has not been written, when both ranges are straight.
theorem offset_ne_of_lt {move : BlockMove} {width : Width} {source target : UInt16}
    {count i j : Nat} (hsource : move.Straight width source count)
    (htarget : move.Straight width target count) (hbehind : move.TargetBehind source target)
    (hij : i < j) (hj : j < count) : move.offset width source j ≠ move.offset width target i := by
  intro heq
  have hnat := congrArg (fun offset => (offset.toNat : Int)) heq
  obtain ⟨hread, hreadBits⟩ := hsource j hj
  obtain ⟨hwritten, hwrittenBits⟩ := htarget i (Nat.lt_trans hij hj)
  simp only [toNat_offset, Int.emod_eq_of_lt hread hreadBits,
    Int.emod_eq_of_lt hwritten hwrittenBits] at hnat
  cases move with
  | ascending =>
      have hle : target.toNat ≤ source.toNat := UInt16.le_iff_toNat_le.mp hbehind
      simp only [step] at hnat
      omega
  | descending =>
      have hle : source.toNat ≤ target.toNat := UInt16.le_iff_toNat_le.mp hbehind
      simp only [step] at hnat
      omega

end BlockMove

namespace Registers

variable (move : BlockMove) (r : Registers)

-- Where the bytes of a block move are read and written.

def sourceAt (bank : UInt8) (i : Nat) : Address := ⟨bank, move.offset r.indexWidth r.x i⟩

def targetAt (bank : UInt8) (i : Nat) : Address := ⟨bank, move.offset r.indexWidth r.y i⟩

-- A counts one byte less than are moved.
def blockSize : Nat := r.a.toNat + 1

-- The target is in another bank, or it is behind the source and both are straight.
def Clear (source target : UInt8) : Prop :=
  source ≠ target ∨
    move.Straight r.indexWidth r.x r.blockSize ∧ move.Straight r.indexWidth r.y r.blockSize ∧
      move.TargetBehind r.x r.y

instance (source target : UInt8) : Decidable (r.Clear move source target) :=
  inferInstanceAs (Decidable (_ ∨ _))

variable {move r} in
-- So no byte is overwritten before it has been read.
theorem Clear.sourceAt_ne {source target : UInt8} (hclear : r.Clear move source target) :
    ∀ j < r.blockSize, ∀ i < j, r.sourceAt move source j ≠ r.targetAt move target i := by
  intro j hj i hij heq
  obtain ⟨hbank, hoffset⟩ := Address.mk.inj heq
  rcases hclear with hbanks | ⟨hsource, htarget, hbehind⟩
  · exact hbanks hbank
  · exact BlockMove.offset_ne_of_lt hsource htarget hbehind hij hj hoffset

-- The registers after some of the bytes.
def movedOn (count : Nat) : Registers :=
  { r with
    x := move.offset r.indexWidth r.x count
    y := move.offset r.indexWidth r.y count
    a := r.a - count.toUInt16 }

variable {r} in
theorem movedOn_zero (hwidths : r.WidthsAgree) : r.movedOn move 0 = r := by
  have hnone (offset : UInt16) : offset + Nat.toUInt16 0 * move.delta = offset :=
    (congrArg (offset + ·) UInt16.zero_mul).trans (UInt16.add_zero offset)
  rw [movedOn, BlockMove.offset, BlockMove.offset, hnone, hnone, hwidths.truncate_x,
    hwidths.truncate_y]
  exact congrArg (fun a => { r with a }) (UInt16.sub_zero r.a)

theorem moveOn_movedOn (count : Nat) :
    (r.movedOn move count).moveOn move.delta = r.movedOn move (count + 1) := by
  have hleft : r.a - count.toUInt16 - 1 = r.a - (count + 1).toUInt16 := by
    have hcount : (count + 1).toUInt16 = count.toUInt16 + 1 := UInt16.ofNat_add count 1
    grind
  have hwidth : (r.movedOn move count).indexWidth = r.indexWidth := rfl
  rw [moveOn, hwidth]
  simp only [movedOn, BlockMove.offset, Width.truncate_succ, hleft]

-- In the end A has run out.
theorem a_movedOn : (r.movedOn move r.blockSize).a = 0xFFFF := by
  have hcount : (r.a.toNat + 1).toUInt16 = r.a + 1 := by
    rw [Nat.toUInt16, UInt16.ofNat_add, UInt16.ofNat_toNat]
    rfl
  show r.a - (r.a.toNat + 1).toUInt16 = 0xFFFF
  rw [hcount]
  grind

end Registers

namespace FlatMemory

-- The loads and stores of bytes that are copied one after the other.
def copies (memory : FlatMemory) (source target : Nat → Address) (count : Nat) : List Access :=
  (List.range count).flatMap fun i =>
    let value := (memory.copy source target i).byte (source i)
    [.load (source i) (.ok value), .store (target i) value (.ok ())]

theorem copies_succ (memory : FlatMemory) (source target : Nat → Address) (count : Nat) :
    let value := (memory.copy source target count).byte (source count)
    memory.copies source target (count + 1) =
      memory.copies source target count ++
        [.load (source count) (.ok value), .store (target count) value (.ok ())] := by
  simp [copies, List.range_succ]

-- The log that such copies leave after others.
def copyLog (memory : FlatMemory) (source target : Nat → Address) (made : List Access)
    (count : Nat) : AccessLog FlatMemory :=
  ⟨memory.copy source target count, (made ++ memory.copies source target count).toArray⟩

theorem store_load_copyLog (memory : FlatMemory) (source target : Nat → Address)
    (made : List Access) (count : Nat) :
    let log := memory.copyLog source target made count
    (Memory.store (target count) (log.memory.byte (source count))
      (Memory.load (source count) log).2).2 = memory.copyLog source target made (count + 1) := by
  intro log
  rw [copyLog, copies_succ, ← List.append_assoc]
  simp only [log, copyLog, Memory.store, Memory.load, List.push_toArray, List.append_assoc,
    List.cons_append, List.nil_append]
  rfl

end FlatMemory

namespace BlockMove

open Execution

variable (move : BlockMove) (target source : UInt8) (r : Registers) (interrupts : InterruptState)
  (memory : FlatMemory) (made : List Access) (cycles : Nat)

-- In the middle of a block move. The loop goes from one of these to the next.
def midway (done : Nat) : Machine (AccessLog FlatMemory) where
  registers := r.movedOn move done
  interrupts
  memory := memory.copyLog (r.sourceAt move source) (r.targetAt move target) made done
  cycles

theorem moveByte_midway (done : Nat) :
    moveByte target source move.delta
        (midway move target source r interrupts memory made cycles done) =
      (.ok (), midway move target source r interrupts memory made cycles (done + 1)) := by
  rw [midway, midway, ← FlatMemory.store_load_copyLog, ← Registers.moveOn_movedOn]
  rfl

theorem moveNext_midway (first : Bool) (done : Nat) :
    ∃ last, moveNext target source move.delta first
        (midway move target source r interrupts memory made cycles done) =
      (.ok last,
        midway move target source r interrupts memory made (cycles + if first then 0 else 7)
          (done + 1)) := by
  rw [moveNext,
    bind_of_ok (moveByte_midway move target source r interrupts memory made cycles done)]
  cases first <;> exact ⟨_, rfl⟩

theorem moveFurther_midway (done count : Nat) :
    moveFurther target source move.delta count
        (midway move target source r interrupts memory made cycles done) =
      (.ok (),
        midway move target source r interrupts memory made (cycles + 7 * count)
          (done + count)) := by
  induction count generalizing cycles done with
  | zero => rfl
  | succ count ih =>
      obtain ⟨last, hnext⟩ :=
        moveNext_midway move target source r interrupts memory made cycles false done
      rw [moveFurther, bind_of_ok hnext, ih, Nat.succ_add_eq_add_succ, Nat.add_assoc,
        Nat.mul_succ, Nat.add_comm (7 * count)]
      rfl

variable {move target source}

-- The processor is in front of the move. The bank of the target comes first.
structure Faces (move : BlockMove) (target source : UInt8) (machine : Machine FlatMemory) :
    Prop where
  opcode : machine.memory.byte ⟨machine.registers.k, machine.registers.pc⟩ = move.opcode
  target : machine.memory.byte ⟨machine.registers.k, machine.registers.pc + 1⟩ = target
  source : machine.memory.byte ⟨machine.registers.k, machine.registers.pc + 2⟩ = source

def fetched (move : BlockMove) (target source : UInt8) (r : Registers) : Instruction where
  operation := ⟨move.opcode, move.mnemonic, .blockMove, 7⟩
  address := ⟨r.k, r.pc⟩
  operand := .blockMove target source

def code (move : BlockMove) (target source : UInt8) (r : Registers) : List Access :=
  [.load ⟨r.k, r.pc⟩ (.ok move.opcode), .load ⟨r.k, r.pc + 1⟩ (.ok target),
    .load ⟨r.k, r.pc + 2⟩ (.ok source)]

theorem fetch_log (hfaces : Faces move target source ⟨r, interrupts, memory, cycles⟩) :
    fetch .standard ⟨r, interrupts, (⟨memory, #[]⟩ : AccessLog FlatMemory), cycles⟩ =
      (.ok (fetched move target source r),
        ⟨{ r with pc := r.pc + 3 }, interrupts,
          ⟨memory, (code move target source r).toArray⟩, cycles⟩) := by
  obtain ⟨hopcode, htarget, hsource⟩ := hfaces
  have hload : loadByte ⟨r.k, r.pc⟩
      ⟨r, interrupts, (⟨memory, #[]⟩ : AccessLog FlatMemory), cycles⟩ =
        (.ok move.opcode,
          ⟨r, interrupts, ⟨memory, #[.load ⟨r.k, r.pc⟩ (.ok move.opcode)]⟩, cycles⟩) := by
    rw [← hopcode]
    rfl
  rw [fetch, registers_bind_apply, bind_of_ok hload]
  simp only [move.get?_opcode]
  subst htarget hsource
  rfl

theorem midway_zero (hwidths : r.WidthsAgree) :
    midway move target source r interrupts memory made cycles 0 =
      ⟨r, interrupts, ⟨memory, made.toArray⟩, cycles⟩ := by
  rw [midway, Registers.movedOn_zero move hwidths, FlatMemory.copyLog, FlatMemory.copies,
    List.range_zero, List.flatMap_nil, List.append_nil]
  rfl

theorem blockMove_log (hwidths : r.WidthsAgree) (opcodeAt : Registers) :
    blockMove move.delta (fetched move target source opcodeAt)
        ⟨r, interrupts, (⟨memory, made.toArray⟩ : AccessLog FlatMemory), cycles⟩ =
      (.ok (), midway move target source { r with dbr := target } interrupts memory made
        (cycles + 7 * r.a.toNat) r.blockSize) := by
  have hbank : { r with dbr := target }.WidthsAgree := { hwidths with }
  obtain ⟨last, hfirst⟩ :=
    moveNext_midway move target source { r with dbr := target } interrupts memory made cycles true 0
  have hrest := moveFurther_midway move target source { r with dbr := target } interrupts memory
    made cycles 1 r.a.toNat
  rw [midway_zero _ _ _ _ _ hbank] at hfirst
  rw [Nat.add_comm 1] at hrest
  rw [blockMove_eq]
  change (moveNext target source move.delta true >>= fun _ =>
    moveFurther target source move.delta r.a.toNat)
      (⟨{ r with dbr := target }, _, _, _⟩ : Machine (AccessLog FlatMemory)) = _
  rw [bind_of_ok hfirst]
  exact hrest

theorem run_log (hwidths : r.WidthsAgree) (opcodeAt : Registers) :
    run (fetched move target source opcodeAt)
        ⟨r, interrupts, (⟨memory, made.toArray⟩ : AccessLog FlatMemory), cycles⟩ =
      (.ok (), midway move target source { r with dbr := target } interrupts memory made
        (cycles + 7 + 7 * r.a.toNat) r.blockSize) := by
  have haction : (fetched move target source opcodeAt).operation.mnemonic.action =
      .blockMove move.delta := move.action_mnemonic
  rw [run, baseCycles, haction]
  exact blockMove_log r interrupts memory made (cycles + 7) hwidths opcodeAt

theorem dispatch_log (hwidths : r.WidthsAgree)
    (hfaces : Faces move target source ⟨r, interrupts, memory, cycles⟩) :
    dispatch .standard ⟨r, interrupts, (⟨memory, #[]⟩ : AccessLog FlatMemory), cycles⟩ =
      (.ok (), midway move target source { r with pc := r.pc + 3, dbr := target } interrupts memory
        (code move target source r) (cycles + 7 + 7 * r.a.toNat) r.blockSize) := by
  have hpast : { r with pc := r.pc + 3 }.WidthsAgree := { hwidths with }
  rw [dispatch, bind_of_ok (fetch_log r interrupts memory cycles hfaces)]
  exact run_log _ interrupts memory _ cycles hpast r

variable (move target source)

-- What a block move does to the machine in front of it.
structure Moves (machine after : Machine FlatMemory) : Prop where
  -- the copies are made one after the other, and nothing else is
  accesses : accesses (dispatch .standard) machine =
    code move target source machine.registers ++
      machine.memory.copies (machine.registers.sourceAt move source)
        (machine.registers.targetAt move target) machine.registers.blockSize
  x : (after.registers.x.toNat : Int) =
    (machine.registers.x.toNat + move.step * machine.registers.blockSize) %
      2 ^ machine.registers.indexWidth.bits
  y : (after.registers.y.toNat : Int) =
    (machine.registers.y.toNat + move.step * machine.registers.blockSize) %
      2 ^ machine.registers.indexWidth.bits
  -- P, S and D among others are what they were
  registers : after.registers =
    { machine.registers with
      a := 0xFFFF
      x := after.registers.x
      y := after.registers.y
      pc := machine.registers.pc + 3
      dbr := target }
  interrupts : after.interrupts = machine.interrupts
  cycles : after.cycles = machine.cycles + 7 * machine.registers.blockSize
  kept : ∀ address,
    (∀ i < machine.registers.blockSize, address ≠ machine.registers.targetAt move target i) →
      after.memory.byte address = machine.memory.byte address
  -- the ranges may overlap, and sources may be read again
  arrived :
    (∀ j < machine.registers.blockSize, ∀ i < j,
      machine.registers.targetAt move target i ≠ machine.registers.targetAt move target j) →
    machine.registers.Clear move source target →
    ∀ i < machine.registers.blockSize,
      after.memory.byte (machine.registers.targetAt move target i) =
        machine.memory.byte (machine.registers.sourceAt move source i)

variable {move target source}

-- Whatever the registers are, a block move ends, and it is a memmove where its ranges allow it.
theorem dispatch_moves {machine : Machine FlatMemory} (hwidths : machine.registers.WidthsAgree)
    (hfaces : Faces move target source machine) :
    ∃ after, dispatch .standard machine = (.ok (), after) ∧
      move.Moves target source machine after := by
  obtain ⟨r, interrupts, memory, cycles⟩ := machine
  have hlog := dispatch_log r interrupts memory cycles hwidths hfaces
  obtain ⟨hanswer, hsame⟩ := lockstep_log.dispatch .standard
    ⟨r, interrupts, (⟨memory, #[]⟩ : AccessLog FlatMemory), cycles⟩ ⟨r, interrupts, memory, cycles⟩
    ⟨rfl, rfl, rfl, trivial, rfl⟩
  rw [hlog] at hanswer hsame
  rcases hdispatch : dispatch .standard ⟨r, interrupts, memory, cycles⟩ with ⟨answer, after⟩
  rw [hdispatch] at hanswer hsame
  obtain rfl : answer = .ok () := hanswer.symm
  have hregisters : after.registers = { r with pc := r.pc + 3, dbr := target }.movedOn move
      r.blockSize := hsame.registers.symm
  have hmemory : after.memory = memory.copy (r.sourceAt move source) (r.targetAt move target)
      r.blockSize := hsame.memory.symm
  exact ⟨after, rfl, {
    accesses := by
      rw [Execution.accesses, hlog]
      rfl
    x := by
      rw [hregisters]
      exact move.toNat_offset r.indexWidth r.x r.blockSize
    y := by
      rw [hregisters]
      exact move.toNat_offset r.indexWidth r.y r.blockSize
    registers := by
      rw [hregisters, ← r.a_movedOn move]
      rfl
    interrupts := hsame.interrupts.symm
    cycles := by
      rw [← hsame.cycles, Registers.blockSize]
      simp only [midway]
      omega
    kept address hout := by
      rw [hmemory]
      exact memory.copy_byte_of_ne hout
    arrived hdistinct hclear i hi := by
      rw [hmemory]
      exact memory.copy_byte_target hclear.sourceAt_ne hdistinct hi }⟩

-- Three bytes move down by one, over the first two of themselves.
theorem dispatch_moves_overlapping :
    let memory : FlatMemory := ⟨fun address =>
      if address = ⟨0, 0⟩ then 0x54 else if address.bank = 0 then 0x7E else address.low⟩
    let r : Registers := { Registers.powerOn with
      a := 2, x := 0x1001, y := 0x1000, p := ⟨0⟩, emulation := false }
    let machine : Machine FlatMemory := ⟨r, {}, memory, 0⟩
    r.WidthsAgree ∧ Faces .ascending 0x7E 0x7E machine ∧
      ∃ after, dispatch .standard machine = (.ok (), after) ∧
        BlockMove.ascending.Moves 0x7E 0x7E machine after ∧
        (∀ i < 3, after.memory.byte ⟨0x7E, 0x1000 + i.toUInt16⟩ = i.toUInt8 + 1) ∧
        after.memory.byte ⟨0x7E, 0x1003⟩ = 3 := by
  intro memory r machine
  have hwidths : r.WidthsAgree := ⟨nofun, nofun, by decide, by decide⟩
  have hfaces : Faces .ascending 0x7E 0x7E machine := ⟨by decide, by decide, by decide⟩
  obtain ⟨after, hdispatch, hmoves⟩ := dispatch_moves hwidths hfaces
  have htarget : ∀ i < 3, r.targetAt .ascending 0x7E i = ⟨0x7E, 0x1000 + i.toUInt16⟩ := by decide
  have hsource : ∀ i < 3, memory.byte (r.sourceAt .ascending 0x7E i) = i.toUInt8 + 1 := by decide
  refine ⟨hwidths, hfaces, after, hdispatch, hmoves, fun i hi => ?_, hmoves.kept _ (by decide)⟩
  rw [← htarget i hi, ← hsource i hi]
  exact hmoves.arrived (by decide) (by decide) i hi

end BlockMove

end Console816
