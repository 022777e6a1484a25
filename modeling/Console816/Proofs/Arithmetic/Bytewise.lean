import Console816.Proofs.Arithmetic.RunningSum

namespace Console816

namespace Arithmetic

-- An operation on bytes makes one on words: on the low bytes, and then on the high ones with the
-- carry that the low ones leave behind. Z is about both.
def bytewise (operation : UInt16 → UInt16 → Status → UInt16 × Status) (a b : UInt16) (p : Status) :
    UInt16 × Status :=
  let (low, between) := operation (Word.low a).toUInt16 (Word.low b).toUInt16 p
  let (high, after) := operation (Word.high a).toUInt16 (Word.high b).toUInt16 between
  (Word.join low.toUInt8 high.toUInt8, after.put .zero (low == 0 && high == 0))

-- Two words whose low bytes are the bytes of a third one. What is above them does not matter.
structure Halves (low high word : UInt16) : Prop where
  low : low.toNat % 0x100 = word.toNat % 0x100
  high : high.toNat % 0x100 = word.toNat / 0x100

theorem halves (word : UInt16) :
    Halves (Word.low word).toUInt16 (Word.high word).toUInt16 word where
  low := by rw [UInt8.toNat_toUInt16, Word.toNat_low, Nat.mod_mod]
  high := by
    have hword := word.toNat_lt
    rw [UInt8.toNat_toUInt16, Word.toNat_high]
    omega

namespace Halves

variable {low high word : UInt16} (hhalves : Halves low high word)

include hhalves

theorem not : Halves (~~~low) (~~~high) (~~~word) := by
  obtain ⟨hlow, hhigh⟩ := hhalves
  have hnot (value : UInt16) : (~~~value).toNat = 0xFFFF - value.toNat := UInt16.toNat_not value
  have hlowest := low.toNat_lt
  have hhighest := high.toNat_lt
  have hword := word.toNat_lt
  constructor <;> simp only [hnot] <;> omega

theorem join_eq : word = Word.join low.toUInt8 high.toUInt8 := by
  apply UInt16.toNat_inj.mp
  rw [Word.toNat_join, UInt16.toNat_toUInt8, UInt16.toNat_toUInt8, hhalves.low, hhalves.high]
  omega

-- The sign of a word is that of its high byte.
theorem sign_eq :
    word.toNat.testBit (Width.word.bits - 1) = high.toNat.testBit (Width.byte.bits - 1) :=
  calc
    word.toNat.testBit 15 = (word.toNat / 2 ^ 8).testBit 7 := by rw [Nat.testBit_div_two_pow]
    _ = (high.toNat % 2 ^ 8).testBit 7 := congrArg (Nat.testBit · 7) hhalves.high.symm
    _ = high.toNat.testBit 7 := by
      rw [Nat.testBit_mod_two_pow]
      rfl

theorem eq_zero_eq (hlow : low.toNat < 0x100) (hhigh : high.toNat < 0x100) :
    (word == 0) = (low == 0 && high == 0) := by
  obtain ⟨hlower, hupper⟩ := hhalves
  rw [Bool.eq_iff_iff, Bool.and_eq_true, beq_iff_eq, beq_iff_eq, beq_iff_eq]
  simp only [← UInt16.toNat_inj, UInt16.reduceToNat]
  omega

end Halves

section Operands

variable {adjust : Nat → Nat × Bool} {aLow aHigh a bLow bHigh b : UInt16} {p q : Status}

-- The digits of a word are those of its bytes.
theorem digitSum_word (ha : Halves aLow aHigh a) (hb : Halves bLow bHigh b)
    (hcarry : q.has .carry = (digitSum adjust .byte aLow bLow p).carry) :
    digitSum adjust .word a b p =
      ⟨(digitSum adjust .byte aLow bLow p).value +
          0x100 * (digitSum adjust .byte aHigh bHigh q).value,
        (digitSum adjust .byte aHigh bHigh q).carry,
        (digitSum adjust .byte aHigh bHigh q).top⟩ := by
  have hlow : digitSum adjust .byte aLow bLow p =
      DigitSum.ripple adjust 2 a.toNat b.toNat (p.has .carry) := by
    have haLow : aLow.toNat % 16 ^ 2 = a.toNat % 16 ^ 2 := ha.low
    have hbLow : bLow.toNat % 16 ^ 2 = b.toNat % 16 ^ 2 := hb.low
    rw [← DigitSum.ripple_mod 2 a.toNat, ← haLow, ← hbLow]
    exact (DigitSum.ripple_mod 2 ..).symm
  have hhigh : digitSum adjust .byte aHigh bHigh q =
      DigitSum.ripple adjust 2 (a.toNat / 16 ^ 2) (b.toNat / 16 ^ 2) (q.has .carry) := by
    have haHigh : aHigh.toNat % 16 ^ 2 = a.toNat / 16 ^ 2 := ha.high
    have hbHigh : bHigh.toNat % 16 ^ 2 = b.toNat / 16 ^ 2 := hb.high
    rw [← haHigh, ← hbHigh]
    exact (DigitSum.ripple_mod 2 ..).symm
  rw [hhigh, hcarry, hlow]
  exact DigitSum.ripple_add 2 2 a.toNat b.toNat (p.has .carry)

variable (hdigit : ∀ sum, (adjust sum).1 < 16)

include hdigit

theorem accumulate_byte_lt : (accumulate adjust .byte a b p).1.toNat < 0x100 := by
  rw [toNat_accumulate hdigit]
  exact DigitSum.ripple_lt hdigit 2 ..

theorem halves_accumulate (ha : Halves aLow aHigh a) (hb : Halves bLow bHigh b)
    (hcarry : q.has .carry = (digitSum adjust .byte aLow bLow p).carry) :
    Halves (accumulate adjust .byte aLow bLow p).1 (accumulate adjust .byte aHigh bHigh q).1
      (accumulate adjust .word a b p).1 := by
  have hlow := accumulate_byte_lt hdigit (a := aLow) (b := bLow) (p := p)
  have hhigh := accumulate_byte_lt hdigit (a := aHigh) (b := bHigh) (p := q)
  have hsum := congrArg DigitSum.value (digitSum_word ha hb hcarry)
  simp only [← toNat_accumulate hdigit] at hsum
  constructor <;> omega

-- What two words come to is what their bytes come to one after the other.
theorem accumulate_word (ha : Halves aLow aHigh a) (hb : Halves bLow bHigh b) :
    let low := accumulate adjust .byte aLow bLow p
    let high := accumulate adjust .byte aHigh bHigh low.2
    accumulate adjust .word a b p =
      (Word.join low.1.toUInt8 high.1.toUInt8,
        high.2.put .zero (low.1 == 0 && high.1 == 0)) := by
  intro low high
  have hsum := digitSum_word ha hb (q := low.2) carry_accumulate
  have hvalue := halves_accumulate hdigit ha hb (q := low.2) carry_accumulate
  refine Prod.ext hvalue.join_eq (Status.eq_of_flags fun flag => ?_)
  by_cases hzero : flag = .zero
  · subst hzero
    rw [zero_accumulate hdigit, Status.has_put_self]
    exact hvalue.eq_zero_eq (accumulate_byte_lt hdigit) (accumulate_byte_lt hdigit)
  rw [Status.has_put_of_ne _ _ hzero]
  by_cases hcarry : flag = .carry
  · subst hcarry
    rw [carry_accumulate, carry_accumulate, hsum]
  by_cases hoverflow : flag = .overflow
  · subst hoverflow
    rw [overflow_accumulate, overflow_accumulate, hsum, ha.sign_eq, hb.sign_eq]
  by_cases hnegative : flag = .negative
  · subst hnegative
    rw [negative_accumulate, negative_accumulate, hvalue.sign_eq]
  have hother : flag ∉ [.carry, .zero, .negative, .overflow] := by
    simp only [List.mem_cons, List.not_mem_nil, or_false, not_or]
    exact ⟨hcarry, hzero, hnegative, hoverflow⟩
  rw [has_accumulate_of_ne hother, has_accumulate_of_ne hother, has_accumulate_of_ne hother]

-- The low byte can be had without the high one.
theorem truncate_accumulate_word :
    Width.byte.truncate (accumulate adjust .word a b p).1 = (accumulate adjust .byte a b p).1 := by
  have hself (word : UInt16) : Halves word (Word.high word).toUInt16 word :=
    ⟨rfl, (halves word).high⟩
  have hlow := (halves_accumulate hdigit (hself a) (hself b)
    (q := (accumulate adjust .byte a b p).2) carry_accumulate).low
  have hlt := accumulate_byte_lt hdigit (a := a) (b := b) (p := p)
  apply UInt16.toNat_inj.mp
  rw [Width.truncate, Width.mask, Word.toNat_lowByte, ← hlow, Nat.mod_eq_of_lt hlt]

end Operands

theorem word_eq_bytewise (a b : UInt16) (p : Status) :
    addWithCarry .word a b p = bytewise (addWithCarry .byte) a b p ∧
      subtractWithBorrow .word a b p = bytewise (subtractWithBorrow .byte) a b p ∧
      Width.byte.truncate (addWithCarry .word a b p).1 = (addWithCarry .byte a b p).1 ∧
      Width.byte.truncate (subtractWithBorrow .word a b p).1 =
        (subtractWithBorrow .byte a b p).1 := by
  have hdecimal (adjust : Nat → Nat × Bool) (c d : UInt16) :
      (accumulate adjust .byte c d p).2.has .decimal = p.has .decimal :=
    has_accumulate_of_ne (by decide)
  have hadd := DigitSum.ite_lt (p.has .decimal) DigitSum.decimal_lt
  have hsubtract := DigitSum.ite_lt (p.has .decimal) DigitSum.decimalBorrow_lt
  simp only [bytewise, addWithCarry_eq, subtractWithBorrow_eq, hdecimal]
  refine ⟨?_, ?_, truncate_accumulate_word hadd, truncate_accumulate_word hsubtract⟩
  · exact accumulate_word hadd (halves a) (halves b)
  · exact accumulate_word hsubtract (halves a) (halves b).not

end Arithmetic

end Console816
