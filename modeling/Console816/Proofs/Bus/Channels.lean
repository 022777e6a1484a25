import Console816.Proofs.Bus.Steady
import Console816.Proofs.Word
import Mathlib.Data.List.GetD

namespace Console816

namespace WorkRam

theorem toNat_advance (ram : WorkRam) :
    ram.advance.cursor.toNat = (ram.cursor.toNat + 1) % size := by
  rw [advance, toNat_masked, UInt32.toNat_add]
  exact Nat.mod_mod_of_dvd _ (by decide)

end WorkRam

namespace DmaChannel

variable (channel : DmaChannel)

theorem transferSize_pos : 0 < channel.transferSize := by
  unfold transferSize
  split
  · decide
  · rename_i hcount
    exact Nat.pos_of_ne_zero fun hzero => hcount (UInt16.toNat_inj.mp hzero)

theorem transferSize_le : channel.transferSize ≤ 0x10000 := by
  unfold transferSize
  split
  · exact Nat.le_refl _
  · exact Nat.le_of_lt channel.byteCount.toNat_lt

-- Where the A side is when byte `i` is transferred.

def offsetAt (i : Nat) : UInt16 :=
  if channel.isFixed then channel.aOffset
  else if channel.isDescending then channel.aOffset - i.toUInt16
  else channel.aOffset + i.toUInt16

def aAddress (i : Nat) : Address := ⟨channel.aBank, channel.offsetAt i⟩

theorem offsetAt_zero : channel.offsetAt 0 = channel.aOffset := by
  unfold offsetAt
  split
  · rfl
  · split
    · exact UInt16.sub_zero _
    · exact UInt16.add_zero _

theorem nextOffset_offsetAt (i : Nat) :
    channel.nextOffset (channel.offsetAt i) = channel.offsetAt (i + 1) := by
  have hnext : (i + 1).toUInt16 = i.toUInt16 + 1 := UInt16.ofNat_add i 1
  unfold nextOffset offsetAt
  split
  · rfl
  · split <;> grind

-- The modes that visit one register of the B side only.
def OneRegister : Prop := channel.mode = 0 ∨ channel.mode = 2 ∨ channel.mode = 6

variable {channel} in
theorem bRegister_eq (hmode : channel.OneRegister) (index : Nat) :
    channel.bRegister index = channel.bAddress := by
  have hpattern : ∃ count, channel.pattern = List.replicate count 0 := by
    unfold pattern
    rcases hmode with hmode | hmode | hmode <;> rw [hmode]
    · exact ⟨1, rfl⟩
    · exact ⟨2, rfl⟩
    · exact ⟨2, rfl⟩
  obtain ⟨count, hpattern⟩ := hpattern
  rw [bRegister, hpattern, List.getD_eq_getElem?_getD, List.getElem?_getD_replicate_default_eq,
    UInt8.add_zero]

theorem getElem_setRegister (index : Fin 16) (value : UInt8) {i : Nat} (hi : i < 16) :
    (channel.setRegister index value).registers[i] =
      if index = i then value else channel.registers[i] :=
  Vector.getElem_set index.isLt hi

-- The registers that a complete transfer leaves.

theorem aOffset_finished (offset : UInt16) :
    ((channel.setAOffset offset).setByteCount 0).aOffset = offset := by
  simp only [setAOffset, setByteCount, aOffset, getElem_setRegister]
  exact Word.join_low_high offset

theorem byteCount_finished (offset : UInt16) :
    ((channel.setAOffset offset).setByteCount 0).byteCount = 0 := by
  simp only [setByteCount, byteCount, getElem_setRegister]
  exact Word.join_low_high 0

end DmaChannel

end Console816
