import Console816.Word
import Console816.Width

namespace Console816

namespace Word

theorem toNat_lowByte (word : UInt16) : (word &&& 0xFF).toNat = word.toNat % 0x100 := by
  rw [UInt16.toNat_and]
  exact Nat.and_two_pow_sub_one_eq_mod word.toNat 8

-- The low byte of a word, moved to page 1.
theorem toNat_pageOne (word : UInt16) :
    (0x0100 ||| (word &&& 0xFF)).toNat = 0x100 + word.toNat % 0x100 := by
  have hlow : word.toNat % 0x100 < 2 ^ 8 := Nat.mod_lt _ (by decide)
  rw [UInt16.toNat_or, toNat_lowByte]
  exact (Nat.two_pow_add_eq_or_of_lt hlow 1).symm

theorem toNat_high (word : UInt16) : (high word).toNat = word.toNat / 0x100 := by
  have hword := word.toNat_lt
  have hshift : (word >>> 8).toNat = word.toNat / 0x100 := by
    rw [UInt16.toNat_shiftRight]
    exact Nat.shiftRight_eq_div_pow word.toNat 8
  rw [high, UInt16.toNat_toUInt8, hshift]
  omega

theorem toNat_low (word : UInt16) : (low word).toNat = word.toNat % 0x100 :=
  UInt16.toNat_toUInt8 word

theorem toNat_join (low high : UInt8) :
    (join low high).toNat = 0x100 * high.toNat + low.toNat := by
  have hlow : low.toNat < 2 ^ 8 := low.toNat_lt
  have hhigh := high.toNat_lt
  have hshift : (high.toUInt16 <<< 8).toNat = 2 ^ 8 * high.toNat := by
    rw [UInt16.toNat_shiftLeft, UInt8.toNat_toUInt16, Nat.shiftLeft_eq]
    simp only [UInt16.reduceToNat, Nat.reduceMod, Nat.reducePow]
    omega
  rw [join, UInt16.toNat_or, hshift, UInt8.toNat_toUInt16, ← Nat.two_pow_add_eq_or_of_lt hlow]

-- The two bytes of a word make it up again.
@[simp] theorem join_low_high (word : UInt16) : join (low word) (high word) = word := by
  apply UInt16.toNat_inj.mp
  have hword := word.toNat_lt
  rw [toNat_join, toNat_high, toNat_low]
  omega

@[simp] theorem low_join (low high : UInt8) : Word.low (join low high) = low := by
  apply UInt8.toNat_inj.mp
  have hlow := low.toNat_lt
  rw [toNat_low, toNat_join]
  omega

@[simp] theorem high_join (low high : UInt8) : Word.high (join low high) = high := by
  apply UInt8.toNat_inj.mp
  have hlow := low.toNat_lt
  rw [toNat_high, toNat_join]
  omega

theorem high_pageOne (word : UInt16) : high (0x0100 ||| (word &&& 0xFF)) = 0x01 := by
  apply UInt8.toNat_inj.mp
  have hlow : word.toNat % 0x100 < 0x100 := Nat.mod_lt _ (by decide)
  rw [toNat_high, toNat_pageOne]
  simp only [UInt8.reduceToNat]
  omega

theorem pageOne_of_high {word : UInt16} (hhigh : high word = 0x01) :
    0x0100 ≤ word ∧ word ≤ 0x01FF := by
  have hpage := toNat_high word
  simp only [hhigh, UInt8.reduceToNat] at hpage
  simp only [UInt16.le_iff_toNat_le, UInt16.reduceToNat]
  omega

theorem pageOne_eq_self {word : UInt16} (hhigh : high word = 0x01) :
    0x0100 ||| (word &&& 0xFF) = word := by
  have hpage := toNat_high word
  apply UInt16.toNat_inj.mp
  rw [toNat_pageOne]
  simp only [hhigh, UInt8.reduceToNat] at hpage
  omega

theorem low_pageOne (word : UInt16) : low (0x0100 ||| (word &&& 0xFF)) = low word := by
  apply UInt8.toNat_inj.mp
  rw [toNat_low, toNat_low, toNat_pageOne]
  omega

-- One down and one up stay in the page unless the low byte goes round.

theorem high_sub_one {word : UInt16} (hlow : low word ≠ 0) : high (word - 1) = high word := by
  have hzero : (low word).toNat ≠ 0 := fun hzero => hlow (UInt8.toNat_inj.mp hzero)
  have hword := word.toNat_lt
  apply UInt8.toNat_inj.mp
  rw [toNat_low] at hzero
  rw [toNat_high, toNat_high, UInt16.toNat_sub]
  simp only [UInt16.reduceToNat]
  omega

theorem high_add_one {word : UInt16} (hlow : low (word + 1) ≠ 0) :
    high (word + 1) = high word := by
  have hback : word + 1 - 1 = word := by rw [UInt16.add_sub_cancel]
  rw [← high_sub_one hlow, hback]

theorem lowByte_lt (word : UInt16) : word &&& 0xFF < 0x100 := by
  rw [UInt16.lt_iff_toNat_lt, toNat_lowByte]
  exact Nat.mod_lt _ (by decide)

theorem lowByte_eq_self {word : UInt16} (hword : word < 0x100) : word &&& 0xFF = word := by
  apply UInt16.toNat_inj.mp
  rw [toNat_lowByte]
  exact Nat.mod_eq_of_lt (UInt16.lt_iff_toNat_lt.mp hword)

theorem lowByte_toUInt16 (byte : UInt8) : byte.toUInt16 &&& 0xFF = byte.toUInt16 := by
  apply UInt16.toNat_inj.mp
  rw [toNat_lowByte, UInt8.toNat_toUInt16]
  exact Nat.mod_eq_of_lt byte.toNat_lt

theorem low_toUInt16 (value : UInt16) : (low value).toUInt16 = value &&& 0xFF := by
  apply UInt16.toNat_inj.mp
  rw [UInt8.toNat_toUInt16, toNat_low, toNat_lowByte]

end Word

namespace Width

theorem truncate_word (value : UInt16) : word.truncate value = value :=
  UInt16.and_neg_one

theorem truncate_add (width : Width) (first second : UInt16) :
    width.truncate (width.truncate first + second) = width.truncate (first + second) := by
  cases width with
  | byte =>
      apply UInt16.toNat_inj.mp
      simp only [truncate, mask, Word.toNat_lowByte, UInt16.toNat_add]
      omega
  | word => rw [truncate_word first]

-- A register that is stepped one time more, and counts only up to its width.
theorem truncate_succ (width : Width) (first delta : UInt16) (count : Nat) :
    width.truncate (width.truncate (first + count.toUInt16 * delta) + delta) =
      width.truncate (first + (count + 1).toUInt16 * delta) := by
  have hcount : (count + 1).toUInt16 = count.toUInt16 + 1 := UInt16.ofNat_add count 1
  rw [truncate_add, hcount, UInt16.add_mul, UInt16.one_mul, UInt16.add_assoc]

theorem truncate_merge (width : Width) (register value : UInt16) :
    width.truncate (width.merge register value) = width.truncate value := by
  have hdistrib (a b c : UInt16) : (a ||| b) &&& c = (a &&& c) ||| (b &&& c) :=
    UInt16.toBitVec_inj.mp BitVec.and_or_distrib_right
  have hout : ~~~width.mask &&& width.mask = 0 := by cases width <;> rfl
  rw [truncate, merge, hdistrib, UInt16.and_assoc, UInt16.and_assoc, hout, UInt16.and_self,
    UInt16.and_zero, UInt16.zero_or]
  rfl

-- What an 8-bit register is given stays below 0x100.
theorem truncate_lt {width : Width} (hbyte : width = byte) (value : UInt16) :
    width.truncate value < 0x100 := by
  subst hbyte
  exact Word.lowByte_lt value

theorem merge_lt {width : Width} (hbyte : width = byte) {register : UInt16} (value : UInt16)
    (hregister : register < 0x100) : width.merge register value < 0x100 := by
  subst hbyte
  have hupper : register &&& ~~~(0xFF : UInt16) = 0 := by
    rw [← Word.lowByte_eq_self hregister, UInt16.and_assoc, UInt16.and_not_self, UInt16.and_zero]
  simp only [merge, mask, hupper, UInt16.zero_or]
  exact Word.lowByte_lt value

end Width

end Console816
