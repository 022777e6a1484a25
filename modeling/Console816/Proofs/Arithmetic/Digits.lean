import Console816.Arithmetic
import Console816.Proofs.Status
import Console816.Proofs.Word
import Mathlib.Data.Nat.Bitwise
import Mathlib.Tactic.IntervalCases

namespace Console816

namespace Width

def digits : Width → Nat
  | byte => 2
  | word => 4

theorem bits_pos (width : Width) : 0 < width.bits := by
  cases width <;> decide

theorem bits_le (width : Width) : width.bits ≤ 16 := by
  cases width <;> decide

theorem bits_div_four (width : Width) : width.bits / 4 = width.digits := by
  cases width <;> rfl

theorem sixteen_pow_digits (width : Width) : 16 ^ width.digits = 2 ^ width.bits := by
  cases width <;> rfl

theorem toNat_truncate (width : Width) (value : UInt16) :
    (width.truncate value).toNat = value.toNat % 16 ^ width.digits := by
  cases width with
  | byte => exact Word.toNat_lowByte value
  | word => rw [truncate_word, sixteen_pow_digits, bits, Nat.mod_eq_of_lt value.toNat_lt]

theorem toNat_truncate_lt (width : Width) (value : UInt16) :
    (width.truncate value).toNat < 2 ^ width.bits := by
  rw [toNat_truncate, sixteen_pow_digits]
  exact Nat.mod_lt _ (Nat.two_pow_pos _)

theorem testBit_truncate {width : Width} {k : Nat} (hk : k < width.bits) (value : UInt16) :
    (width.truncate value).toNat.testBit k = value.toNat.testBit k := by
  rw [toNat_truncate, sixteen_pow_digits, Nat.testBit_mod_two_pow, decide_eq_true hk,
    Bool.true_and]

theorem truncate_eq_self {width : Width} {value : UInt16}
    (hvalue : value.toNat < 16 ^ width.digits) : width.truncate value = value := by
  apply UInt16.toNat_inj.mp
  rw [toNat_truncate, Nat.mod_eq_of_lt hvalue]

theorem truncate_truncate (width : Width) (value : UInt16) :
    width.truncate (width.truncate value) = width.truncate value := by
  apply truncate_eq_self
  rw [toNat_truncate]
  exact Nat.mod_lt _ (Nat.pow_pos (by decide))

theorem and_signBit_ne_zero (width : Width) (value : UInt16) :
    (value &&& width.signBit != 0) = value.toNat.testBit (width.bits - 1) := by
  have hsign : width.signBit.toNat = 2 ^ (width.bits - 1) := by cases width <;> rfl
  have hmasked : (value &&& width.signBit).toNat =
      (value.toNat.testBit (width.bits - 1)).toNat * 2 ^ (width.bits - 1) := by
    rw [UInt16.toNat_and, hsign, Nat.and_two_pow]
  rw [Bool.eq_iff_iff, bne_iff_ne, ne_eq, ← UInt16.toNat_inj, hmasked]
  cases value.toNat.testBit (width.bits - 1) <;> simp

-- Complementing a word turns each of its digits into what it lacks to 15.
theorem not_digit {width : Width} {index : Nat} (hindex : index < width.digits) (value : UInt16) :
    value.toNat / 16 ^ index % 16 + (~~~value).toNat / 16 ^ index % 16 = 15 := by
  have hindex : index < 4 := by
    cases width with
    | byte => exact Nat.lt_of_lt_of_le hindex (by decide)
    | word => exact hindex
  have hnot : (~~~value).toNat = 0xFFFF - value.toNat := UInt16.toNat_not value
  have hvalue := value.toNat_lt
  rw [hnot]
  interval_cases index <;> omega

end Width

-- Sums are formed one hexadecimal digit at a time, lowest first. `adjust` turns the sum of two
-- digits and the incoming carry into a digit and the outgoing carry.
structure DigitSum where
  value : Nat
  carry : Bool
  -- the sum at the highest position, before it was adjusted
  top : Nat
  deriving DecidableEq, Repr

namespace DigitSum

def binary (sum : Nat) : Nat × Bool := (sum % 16, 16 ≤ sum)

-- A decimal digit carries from ten on.
def decimal (sum : Nat) : Nat × Bool :=
  if sum < 10 then (sum, false) else ((sum + 6) % 16, true)

-- With a complemented digit, a sum without a carry stands for a borrow.
def decimalBorrow (sum : Nat) : Nat × Bool :=
  if sum < 16 then ((sum + 10) % 16, false) else (sum % 16, true)

def ripple (adjust : Nat → Nat × Bool) : Nat → Nat → Nat → Bool → DigitSum
  | 0, _, _, carry => ⟨0, carry, 0⟩
  | count + 1, a, b, carry =>
    let sum := a % 16 + b % 16 + carry.toNat
    let (digit, next) := adjust sum
    let upper := ripple adjust count (a / 16) (b / 16) next
    ⟨digit + 16 * upper.value, upper.carry, if count = 0 then sum else upper.top⟩

variable {adjust : Nat → Nat × Bool}

-- A longer sum is that of the lower digits, and then that of the upper ones with the carry between
-- them.
theorem ripple_add (first second a b : Nat) (carry : Bool) :
    let lower := ripple adjust first a b carry
    let upper := ripple adjust second (a / 16 ^ first) (b / 16 ^ first) lower.carry
    ripple adjust (first + second) a b carry =
      ⟨lower.value + 16 ^ first * upper.value, upper.carry,
        if second = 0 then lower.top else upper.top⟩ := by
  induction first generalizing a b carry with
  | zero => cases second <;> simp [ripple]
  | succ first ih =>
      have hshift (n : Nat) : n / 16 / 16 ^ first = n / 16 ^ (first + 1) := by
        rw [Nat.div_div_eq_div_mul, Nat.pow_succ']
      have hrest := ih (a / 16) (b / 16) (adjust (a % 16 + b % 16 + carry.toNat)).2
      simp only [hshift] at hrest
      rw [Nat.add_right_comm]
      simp only [ripple, hrest, DigitSum.mk.injEq, true_and]
      constructor
      · rw [Nat.mul_add, ← Nat.mul_assoc, ← Nat.pow_succ', ← Nat.add_assoc]
      · by_cases hsecond : second = 0 <;> simp [hsecond]

-- Digits past those that are added do not matter.
theorem ripple_mod (count a b : Nat) (carry : Bool) :
    ripple adjust count (a % 16 ^ count) (b % 16 ^ count) carry =
      ripple adjust count a b carry := by
  induction count generalizing a b carry with
  | zero => rfl
  | succ count ih =>
      have hlow (n : Nat) : n % 16 ^ (count + 1) % 16 = n % 16 :=
        Nat.mod_mod_of_dvd _ (Nat.pow_succ' ▸ Nat.dvd_mul_right ..)
      have hupper (n : Nat) : n % 16 ^ (count + 1) / 16 = n / 16 % 16 ^ count := by
        rw [Nat.pow_succ']
        exact Nat.mod_mul_right_div_self ..
      simp only [ripple, hlow, hupper, ih]

theorem ripple_lt (hdigit : ∀ sum, (adjust sum).1 < 16) (count a b : Nat) (carry : Bool) :
    (ripple adjust count a b carry).value < 16 ^ count := by
  induction count generalizing a b carry with
  | zero => exact Nat.one_pos
  | succ count ih =>
      have hlow := hdigit (a % 16 + b % 16 + carry.toNat)
      have hupper := ih (a / 16) (b / 16) (adjust (a % 16 + b % 16 + carry.toNat)).2
      simp only [ripple, Nat.pow_succ']
      omega

-- Whatever comes in, a digit comes out.

theorem binary_lt (sum : Nat) : (binary sum).1 < 16 := Nat.mod_lt _ (by decide)

theorem decimal_lt (sum : Nat) : (decimal sum).1 < 16 := by
  unfold decimal
  split <;> dsimp only <;> omega

theorem decimalBorrow_lt (sum : Nat) : (decimalBorrow sum).1 < 16 := by
  unfold decimalBorrow
  split <;> exact Nat.mod_lt _ (by decide)

theorem ite_lt (isDecimal : Bool) (hdigit : ∀ sum, (adjust sum).1 < 16) (sum : Nat) :
    ((if isDecimal then adjust else binary) sum).1 < 16 := by
  split
  · exact hdigit sum
  · exact binary_lt sum

end DigitSum

namespace Arithmetic

-- V compares the signs of the operands with bit 3 of the highest digit sum, so in decimal mode it
-- is taken before that digit is adjusted.
def accumulate (adjust : Nat → Nat × Bool) (width : Width) (a b : UInt16) (p : Status) :
    UInt16 × Status :=
  let sum := DigitSum.ripple adjust (width.bits / 4) a.toNat b.toNat (p.has .carry)
  let value := sum.value.toUInt16
  let sign := a &&& width.signBit != 0
  let overflow := sign == (b &&& width.signBit != 0) && sign != sum.top.testBit 3
  (value, ((p.put .overflow overflow).put .carry sum.carry).describe width value)

variable {adjust : Nat → Nat × Bool} {width : Width} {a b : UInt16} {p : Status}

-- The sum that a result and its flags are taken from.
def digitSum (adjust : Nat → Nat × Bool) (width : Width) (a b : UInt16) (p : Status) : DigitSum :=
  .ripple adjust width.digits a.toNat b.toNat (p.has .carry)

theorem value_accumulate :
    (accumulate adjust width a b p).1 = (digitSum adjust width a b p).value.toUInt16 := by
  rw [accumulate, Width.bits_div_four, digitSum]

theorem toNat_accumulate (hdigit : ∀ sum, (adjust sum).1 < 16) :
    (accumulate adjust width a b p).1.toNat = (digitSum adjust width a b p).value := by
  have hlt := DigitSum.ripple_lt hdigit width.digits a.toNat b.toNat (p.has .carry)
  rw [value_accumulate]
  refine UInt16.toNat_ofNat_of_lt' (hlt.trans_le ?_)
  cases width <;> decide

theorem carry_accumulate :
    (accumulate adjust width a b p).2.has .carry = (digitSum adjust width a b p).carry := by
  rw [accumulate, Width.bits_div_four, digitSum,
    Status.has_describe_of_ne _ _ _ (by decide) (by decide), Status.has_put_self]

theorem overflow_accumulate :
    (accumulate adjust width a b p).2.has .overflow =
      (a.toNat.testBit (width.bits - 1) == b.toNat.testBit (width.bits - 1) &&
        a.toNat.testBit (width.bits - 1) != (digitSum adjust width a b p).top.testBit 3) := by
  rw [accumulate, Width.bits_div_four, digitSum,
    Status.has_describe_of_ne _ _ _ (by decide) (by decide), Status.has_put_of_ne _ _ (by decide),
    Status.has_put_self, Width.and_signBit_ne_zero, Width.and_signBit_ne_zero]

theorem truncate_accumulate (hdigit : ∀ sum, (adjust sum).1 < 16) :
    width.truncate (accumulate adjust width a b p).1 = (accumulate adjust width a b p).1 := by
  apply Width.truncate_eq_self
  rw [toNat_accumulate hdigit]
  exact DigitSum.ripple_lt hdigit ..

theorem zero_accumulate (hdigit : ∀ sum, (adjust sum).1 < 16) :
    (accumulate adjust width a b p).2.has .zero = ((accumulate adjust width a b p).1 == 0) := by
  conv_rhs => rw [← truncate_accumulate hdigit]
  rw [accumulate, Status.describe, Status.has_put_of_ne _ _ (by decide), Status.has_put_self]

theorem negative_accumulate :
    (accumulate adjust width a b p).2.has .negative =
      (accumulate adjust width a b p).1.toNat.testBit (width.bits - 1) := by
  rw [accumulate, Status.describe, Status.has_put_self, Width.and_signBit_ne_zero]

theorem has_accumulate_of_ne {flag : Flag}
    (hflag : flag ∉ [.carry, .zero, .negative, .overflow]) :
    (accumulate adjust width a b p).2.has flag = p.has flag := by
  simp only [List.mem_cons, List.not_mem_nil, or_false, not_or] at hflag
  obtain ⟨hc, hz, hn, hv⟩ := hflag
  rw [accumulate, Status.has_describe_of_ne _ _ _ hz hn, Status.has_put_of_ne _ _ hc,
    Status.has_put_of_ne _ _ hv]

end Arithmetic

end Console816
