import Console816.Proofs.Bus.Channels
import Console816.Proofs.Bus.RandomAccess
import Mathlib.Data.List.Induction

namespace Console816.WorkRam

-- The cursor is set a byte at a time.
def point (ram : WorkRam) (order : List UInt8) (settings : UInt8 → UInt8) : WorkRam :=
  order.foldl (fun ram byte => ram.setCursorByte byte (settings byte)) ram

-- Where such settings point. Only one bit of the highest byte counts.
def target (settings : UInt8 → UInt8) : Nat :=
  (settings 0).toNat + 0x100 * ((settings 1).toNat + 0x100 * ((settings 2).toNat % 2))

def writeAll (ram : WorkRam) (bytes : List UInt8) : WorkRam := bytes.foldl writeNext ram

def readMany (ram : WorkRam) : Nat → List UInt8 × WorkRam
  | 0 => ([], ram)
  | count + 1 =>
    let (value, ram) := ram.readNext
    let (values, ram) := ram.readMany count
    (value :: values, ram)

section Cursor

-- One of three bytes is replaced, and the rest of seventeen bits is kept.
theorem getLsbD_replaced (cursor : BitVec 32) (value : BitVec 8) (byte k : Nat) :
    ((cursor &&& ~~~(0xFF#32 <<< (8 * byte)) ||| value.setWidth 32 <<< (8 * byte)) &&&
        0x1FFFF#32).getLsbD k =
      (decide (k < 17) && if k / 8 = byte then value.getLsbD (k % 8) else cursor.getLsbD k) := by
  have hmask (mask width j : Nat) (hones : mask = 2 ^ width - 1) (hwidth : width ≤ 32) :
      (BitVec.ofNat 32 mask).getLsbD j = decide (j < width) := by
    rw [hones, BitVec.getLsbD_ofNat, Nat.testBit_two_pow_sub_one, ← Bool.decide_and]
    exact decide_eq_decide.mpr (by omega)
  simp only [BitVec.getLsbD_and, BitVec.getLsbD_or, BitVec.getLsbD_not, BitVec.getLsbD_shiftLeft,
    BitVec.getLsbD_setWidth]
  rw [hmask 0xFF 8 _ rfl (by decide), hmask 0x1FFFF 17 _ rfl (by decide), Bool.and_comm]
  by_cases hk : k < 17
  · have hlt : k < 32 := by omega
    by_cases hin : k / 8 = byte
    · have hbit : k - 8 * byte = k % 8 := by omega
      have hat : ¬k < 8 * byte := by omega
      have hlow : k % 8 < 8 := by omega
      have hlow' : k % 8 < 32 := by omega
      simp [hin, hbit, hlt, hat, hlow, hlow']
    · by_cases hbelow : k < 8 * byte
      · simp [hin, hlt, hbelow]
      · have habove : ¬k - 8 * byte < 8 := by omega
        have hnone : value.getLsbD (k - 8 * byte) = false :=
          BitVec.getLsbD_of_ge _ _ (Nat.not_lt.mp habove)
        simp [hin, hlt, hbelow, habove, hnone]
  · simp [hk]

variable (ram : WorkRam)

theorem toBitVec_setCursorByte {byte : UInt8} (hbyte : byte.toNat < 3) (value : UInt8) :
    (ram.setCursorByte byte value).cursor.toBitVec =
      (ram.cursor.toBitVec &&& ~~~(0xFF#32 <<< (8 * byte.toNat)) |||
        value.toBitVec.setWidth 32 <<< (8 * byte.toNat)) &&& 0x1FFFF#32 := by
  have hshift : (8 * byte.toUInt32).toNat % 32 = 8 * byte.toNat := by
    rw [UInt32.toNat_mul, UInt8.toNat_toUInt32]
    simp
    omega
  have hleft (bits : UInt32) :
      (bits <<< (8 * byte.toUInt32)).toBitVec = bits.toBitVec <<< (8 * byte.toNat) := by
    rw [UInt32.toBitVec_shiftLeft, ← hshift]
    simp
  simp only [setCursorByte, UInt32.toBitVec_and, UInt32.toBitVec_or, UInt32.toBitVec_not, hleft]
  rfl

theorem testBit_setCursorByte {byte : UInt8} (hbyte : byte.toNat < 3) (value : UInt8) (k : Nat) :
    (ram.setCursorByte byte value).cursor.toNat.testBit k =
      (decide (k < 17) && if k / 8 = byte.toNat then value.toNat.testBit (k % 8)
        else ram.cursor.toNat.testBit k) := by
  rw [← UInt32.toNat_toBitVec, toBitVec_setCursorByte ram hbyte value]
  exact getLsbD_replaced ram.cursor.toBitVec value.toBitVec byte.toNat k

variable {order : List UInt8} (settings : UInt8 → UInt8)

@[simp] theorem data_point : (ram.point order settings).data = ram.data := by
  induction order generalizing ram with
  | nil => rfl
  | cons byte rest ih => exact ih (ram.setCursorByte byte (settings byte))

theorem testBit_point (horder : ∀ byte ∈ order, byte.toNat < 3) {byte : UInt8} {k : Nat}
    (hk : k < 17) (hbyte : k / 8 = byte.toNat) :
    (ram.point order settings).cursor.toNat.testBit k =
      if byte ∈ order then (settings byte).toNat.testBit (k % 8)
      else ram.cursor.toNat.testBit k := by
  induction order generalizing ram with
  | nil => rfl
  | cons other rest ih =>
      have hstep := ram.testBit_setCursorByte (horder other (List.mem_cons_self ..))
        (settings other) k
      have hsame : k / 8 = other.toNat ↔ byte = other := by
        rw [hbyte, UInt8.toNat_inj]
      simp only [hk, decide_true, Bool.true_and, hsame] at hstep
      have hrest := ih (ram.setCursorByte other (settings other))
        (fun later hmem => horder later (List.mem_cons_of_mem _ hmem))
      rw [hstep] at hrest
      refine hrest.trans ?_
      by_cases hmem : byte ∈ rest
      · simp [hmem]
      · by_cases hother : byte = other <;> simp [hmem, hother]

theorem testBit_target (k : Nat) :
    (target settings).testBit k =
      if k < 8 then (settings 0).toNat.testBit k
      else if k - 8 < 8 then (settings 1).toNat.testBit (k - 8)
      else decide (k - 8 - 8 < 1) && (settings 2).toNat.testBit (k - 8 - 8) := by
  have hlow : (settings 0).toNat < 2 ^ 8 := (settings 0).toNat_lt
  have hmiddle : (settings 1).toNat < 2 ^ 8 := (settings 1).toNat_lt
  have hhigh : (settings 2).toNat % 2 = (settings 2).toNat % 2 ^ 1 := rfl
  rw [target, Nat.add_comm, show 0x100 = 2 ^ 8 from rfl, Nat.testBit_two_pow_mul_add _ hlow,
    Nat.add_comm, Nat.testBit_two_pow_mul_add _ hmiddle, hhigh, Nat.testBit_mod_two_pow]

theorem point_cursor_lt (horder : order.Perm [0, 1, 2]) :
    (ram.point order settings).cursor < 0x20000 := by
  obtain rfl | ⟨rest, byte, rfl⟩ := List.eq_nil_or_concat order
  · cases horder.nil_eq
  · rw [point, List.concat_eq_append, List.foldl_append]
    exact setCursorByte_cursor_lt ..

-- The order of the bytes does not matter, nor does where the cursor was before.
theorem toNat_cursor_point (horder : order.Perm [0, 1, 2]) :
    (ram.point order settings).cursor.toNat = target settings := by
  have hthree : ∀ byte ∈ order, byte.toNat < 3 := fun byte hmem => by
    have hlisted := horder.mem_iff.mp hmem
    simp only [List.mem_cons, List.not_mem_nil, or_false] at hlisted
    rcases hlisted with rfl | rfl | rfl <;> decide
  have hbit {k : Nat} (byte : UInt8) (hmem : byte ∈ [(0 : UInt8), 1, 2]) (hk : k < 17)
      (hbyte : k / 8 = byte.toNat) :
      (ram.point order settings).cursor.toNat.testBit k =
        (settings byte).toNat.testBit (k % 8) := by
    rw [testBit_point ram settings hthree hk hbyte, if_pos (horder.mem_iff.mpr hmem)]
  refine Nat.eq_of_testBit_eq fun k => ?_
  rw [testBit_target]
  by_cases hlow : k < 8
  · rw [if_pos hlow, hbit 0 (by decide) (by omega) (Nat.div_eq_of_lt hlow),
      Nat.mod_eq_of_lt hlow]
  rw [if_neg hlow]
  by_cases hmiddle : k - 8 < 8
  · have hbyte : k / 8 = (1 : UInt8).toNat := by
      change k / 8 = 1
      omega
    have hplace : k % 8 = k - 8 := by omega
    rw [if_pos hmiddle, hbit 1 (by decide) (by omega) hbyte, hplace]
  rw [if_neg hmiddle]
  by_cases hhigh : k = 16
  · subst hhigh
    exact hbit 2 (by decide) (by decide) rfl
  · have hnone : ¬k - 8 - 8 < 1 := by omega
    have hlt : (ram.point order settings).cursor.toNat < 2 ^ 17 :=
      UInt32.lt_iff_toNat_lt.mp (ram.point_cursor_lt settings horder)
    have hpow : 2 ^ 17 ≤ 2 ^ k := Nat.pow_le_pow_right (by decide) (by omega)
    rw [Nat.testBit_lt_two_pow (Nat.lt_of_lt_of_le hlt hpow)]
    simp [hnone]

end Cursor

section Streams

variable {start ram : WorkRam} {p : Nat}

-- A cursor that points at p has written the bytes. Where some went to the same cell, it holds the
-- last of them.
structure Written (start : WorkRam) (p : Nat) (bytes : List UInt8) (ram : WorkRam) : Prop where
  arrived : ∀ i, (hi : i < bytes.length) →
    (∀ j < bytes.length, i < j → (p + j) % size ≠ (p + i) % size) → ram.read (p + i) = bytes[i]
  kept : ∀ index, (∀ i < bytes.length, (p + i) % size ≠ index % size) →
    ram.read index = start.read index
  cursor : ram.cursor.toNat = (p + bytes.length) % size
  sized : ram.data.size = size

theorem read_writeNext (hsize : ram.data.size = size) (value : UInt8) (index : Nat) :
    (ram.writeNext value).read index =
      if index % size = ram.cursor.toNat % size then value else ram.read index :=
  have hlt : ram.cursor.toNat % size < ram.data.size := by
    rw [hsize]
    exact Nat.mod_lt _ (by decide)
  get!_set! _ hlt value _

theorem Written.writeNext {bytes : List UInt8} (hwritten : Written start p bytes ram)
    (value : UInt8) : Written start p (bytes ++ [value]) (ram.writeNext value) := by
  have hread (index : Nat) : (ram.writeNext value).read index =
      if index % size = (p + bytes.length) % size then value else ram.read index := by
    rw [read_writeNext hwritten.sized, hwritten.cursor, Nat.mod_mod]
  constructor
  case arrived =>
      intro i hi hlast
      rw [List.length_append, List.length_singleton] at hi
      rw [hread]
      by_cases hnew : i = bytes.length
      · subst hnew
        simp
      · have hold : i < bytes.length := by omega
        have hlater := hlast bytes.length (by simp) hold
        rw [if_neg hlater.symm, List.getElem_append_left hold]
        exact hwritten.arrived i hold fun j hj => hlast j (by simp; omega)
  case kept =>
      intro index huntouched
      have hnew := huntouched bytes.length (by simp)
      rw [hread, if_neg hnew.symm]
      exact hwritten.kept index fun i hi => huntouched i (by simp; omega)
  case cursor =>
      rw [WorkRam.writeNext, toNat_advance]
      change (ram.cursor.toNat + 1) % size = _
      rw [hwritten.cursor, Nat.mod_add_mod, List.length_append, Nat.add_assoc]
      rfl
  case sized => exact (ram.size_write _ value).trans hwritten.sized

theorem Written.nil (hsize : start.data.size = size) (hcursor : start.cursor.toNat < size) :
    Written start start.cursor.toNat [] start where
  arrived i hi := absurd hi (Nat.not_lt_zero i)
  kept _ _ := rfl
  cursor := (Nat.mod_eq_of_lt hcursor).symm
  sized := hsize

theorem written_writeAll (hsize : start.data.size = size) (hcursor : start.cursor.toNat < size)
    (bytes : List UInt8) : Written start start.cursor.toNat bytes (start.writeAll bytes) := by
  induction bytes using List.reverseRecOn with
  | nil => exact .nil hsize hcursor
  | append_singleton bytes value ih =>
      rw [writeAll, List.foldl_append]
      exact ih.writeNext value

-- No cell is met twice by a stream that is no longer than the memory.
theorem Written.read_of_le {bytes : List UInt8} (hwritten : Written start p bytes ram)
    (hfits : bytes.length ≤ size) (i : Nat) (hi : i < bytes.length) :
    ram.read (p + i) = bytes[i] := by
  refine hwritten.arrived i hi fun j hj hij hsame => ?_
  simp only [size] at hfits hsame
  omega

theorem readMany_eq (hcursor : ram.cursor.toNat < size) (count : Nat) :
    (ram.readMany count).1 = (List.range count).map (fun i => ram.read (ram.cursor.toNat + i)) ∧
      (ram.readMany count).2.data = ram.data ∧
      (ram.readMany count).2.cursor.toNat = (ram.cursor.toNat + count) % size := by
  induction count generalizing ram with
  | zero => exact ⟨rfl, rfl, (Nat.mod_eq_of_lt hcursor).symm⟩
  | succ count ih =>
      have hadvanced : ram.advance.cursor.toNat = (ram.cursor.toNat + 1) % size := ram.toNat_advance
      obtain ⟨hvalues, hdata, hcursor'⟩ := @ih ram.advance
        (hadvanced ▸ Nat.mod_lt _ (by decide))
      refine ⟨?_, hdata, ?_⟩
      · have hread (i : Nat) : ram.advance.read (ram.advance.cursor.toNat + i) =
            ram.read (ram.cursor.toNat + (i + 1)) := by
          rw [hadvanced, read, read, Nat.mod_add_mod, Nat.add_assoc, Nat.add_comm 1]
          rfl
        rw [List.range_succ_eq_map, List.map_cons, List.map_map]
        refine congrArg (List.cons (ram.read ram.cursor.toNat)) (hvalues.trans ?_)
        exact List.map_congr_left fun i _ => hread i
      · refine hcursor'.trans ?_
        rw [hadvanced, Nat.mod_add_mod, Nat.add_assoc, Nat.add_comm 1]

-- Pointing touches no memory.
theorem Written.of_data {other : WorkRam} {bytes : List UInt8}
    (hwritten : Written start p bytes ram) (hdata : other.data = start.data) :
    Written other p bytes ram :=
  { hwritten with
    kept := fun index huntouched => by
      rw [hwritten.kept index huntouched, read, read, hdata] }

end Streams

-- A stream that is written from an address on goes to the cells from there on, wrapped at the end
-- of the memory, and leaves the others as they were. Whoever points there again reads what the
-- cells hold, which is the stream itself unless it has overtaken itself.
theorem port_streams (ram : WorkRam) (hsize : ram.data.size = size) {order order' : List UInt8}
    (horder : order.Perm [0, 1, 2]) (horder' : order'.Perm [0, 1, 2])
    {settings settings' : UInt8 → UInt8} (hsame : target settings' = target settings)
    (bytes : List UInt8) :
    let p := target settings
    let pointed := ram.point order settings
    let written := pointed.writeAll bytes
    let readBack := (written.point order' settings').readMany bytes.length
    pointed.cursor.toNat = p ∧ pointed.data = ram.data ∧ Written ram p bytes written ∧
      readBack.1 = (List.range bytes.length).map (fun i => written.read (p + i)) ∧
      readBack.2.data = written.data ∧ readBack.2.cursor = written.cursor ∧
      (bytes.length ≤ size →
        (∀ i, (hi : i < bytes.length) → written.read (p + i) = bytes[i]) ∧
          readBack.1 = bytes) := by
  intro p pointed written readBack
  have hcursor : pointed.cursor.toNat = p := ram.toNat_cursor_point settings horder
  have hlt : p < size := hcursor ▸ UInt32.lt_iff_toNat_lt.mp (ram.point_cursor_lt settings horder)
  have hdata : pointed.data = ram.data := ram.data_point settings
  have hpointed : Written pointed p bytes written :=
    hcursor ▸ written_writeAll (hdata ▸ hsize) (hcursor ▸ hlt) bytes
  have hwritten : Written ram p bytes written := hpointed.of_data hdata.symm
  have hcursor' : (written.point order' settings').cursor.toNat = p :=
    (written.toNat_cursor_point settings' horder').trans hsame
  have hread (index : Nat) : (written.point order' settings').read index = written.read index := by
    rw [read, data_point, read]
  obtain ⟨hvalues, hreadData, hreadCursor⟩ :=
    @readMany_eq (written.point order' settings') (hcursor' ▸ hlt) bytes.length
  simp only [hcursor', hread] at hvalues hreadCursor
  refine ⟨hcursor, hdata, hwritten, hvalues, hreadData.trans (written.data_point settings'),
    UInt32.toNat_inj.mp (hreadCursor.trans hwritten.cursor.symm), fun hfits => ?_⟩
  refine ⟨hwritten.read_of_le hfits, hvalues.trans ?_⟩
  refine List.ext_getElem (by simp) fun i hi hi' => ?_
  rw [List.getElem_map, List.getElem_range]
  exact hwritten.read_of_le hfits i hi'

-- Across the end of the memory, with an address of ones.
theorem port_streams_wrapping :
    let settings : UInt8 → UInt8 := fun _ => 0xFF
    let written := (powerOn.point [2, 0, 1] settings).writeAll [0x11, 0x22]
    powerOn.data.size = size ∧ written.read 0x1FFFF = 0x11 ∧ written.read 0 = 0x22 ∧
      written.cursor = 1 ∧
      ((written.point [0, 1, 2] settings).readMany 2).1 = [0x11, 0x22] := by
  intro settings written
  have hsize : powerOn.data.size = size := size_zeroBytes size
  have htarget : target settings = 0x1FFFF := by simp [target, settings]
  have horder : [2, 0, 1].Perm [(0 : UInt8), 1, 2] := by decide
  have horder' : [0, 1, 2].Perm [(0 : UInt8), 1, 2] := by decide
  have hsame : target settings = target settings := rfl
  obtain ⟨-, -, hwritten, -, -, -, hfits⟩ :=
    port_streams powerOn hsize horder horder' hsame [0x11, 0x22]
  obtain ⟨hholds, hread⟩ := hfits (by simp [size])
  rw [htarget] at hholds hwritten
  have hwrapped : written.read (0x1FFFF + 1) = written.read 0 :=
    congrArg written.data.get! (by decide)
  refine ⟨hsize, hholds 0 (by decide), hwrapped.symm.trans (hholds 1 (by decide)), ?_, hread⟩
  exact UInt32.toNat_inj.mp hwritten.cursor

end Console816.WorkRam
