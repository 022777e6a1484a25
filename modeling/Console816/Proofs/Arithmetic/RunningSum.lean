import Console816.Proofs.Arithmetic.Digits
import Mathlib.Tactic.Ring

namespace Console816

namespace DigitSum

variable {adjust : Nat → Nat × Bool}

-- The sum of the digits at `index` with what is carried there.
def sumAt (adjust : Nat → Nat × Bool) (a b : Nat) (carry : Bool) (index : Nat) : Nat :=
  a / 16 ^ index % 16 + b / 16 ^ index % 16 + (ripple adjust index a b carry).carry.toNat

-- The value of the digits below `index`, and that sum on top of them as it is.
def running (adjust : Nat → Nat × Bool) (a b : Nat) (carry : Bool) (index : Nat) : Nat :=
  (ripple adjust index a b carry).value + 16 ^ index * sumAt adjust a b carry index

theorem running_zero (a b : Nat) (carry : Bool) :
    running adjust a b carry 0 = a % 16 + b % 16 + carry.toNat := by
  simp [running, sumAt, ripple]

theorem ripple_succ (index a b : Nat) (carry : Bool) :
    ripple adjust (index + 1) a b carry =
      ⟨(ripple adjust index a b carry).value +
          16 ^ index * (adjust (sumAt adjust a b carry index)).1,
        (adjust (sumAt adjust a b carry index)).2, sumAt adjust a b carry index⟩ := by
  rw [ripple_add]
  simp [ripple, sumAt]

-- Nothing is lost: what the digits leave out is in the carry.
theorem ripple_binary (count a b : Nat) (carry : Bool) :
    (ripple binary count a b carry).value +
        16 ^ count * (ripple binary count a b carry).carry.toNat =
      a % 16 ^ count + b % 16 ^ count + carry.toNat := by
  induction count generalizing a b carry with
  | zero => simp [ripple, Nat.mod_one]
  | succ count ih =>
      have hupper := ih (a / 16) (b / 16) (binary (a % 16 + b % 16 + carry.toNat)).2
      have hlow : (binary (a % 16 + b % 16 + carry.toNat)).1 +
          16 * (binary (a % 16 + b % 16 + carry.toNat)).2.toNat =
          a % 16 + b % 16 + carry.toNat := by
        have hcarry := Bool.toNat_le carry
        by_cases hsum : 16 ≤ a % 16 + b % 16 + carry.toNat
        · simp only [binary, hsum, decide_true, Bool.toNat_true]
          omega
        · simp only [binary, hsum, decide_false, Bool.toNat_false]
          omega
      simp only [ripple, Nat.pow_succ', Nat.mod_mul, Nat.mul_assoc]
      omega

-- Binary digits come to the sum of the numbers.
theorem running_binary (index a b : Nat) (carry : Bool) :
    running binary a b carry index =
      a % 16 ^ (index + 1) + b % 16 ^ (index + 1) + carry.toNat := by
  have hsum := ripple_binary index a b carry
  rw [running, sumAt, Nat.mod_pow_succ, Nat.mod_pow_succ, Nat.mul_add, Nat.mul_add]
  omega

end DigitSum

namespace Arithmetic

open DigitSum

-- Places in a number of which something is below.
section Place

variable {place low : Int} (hlow : 0 ≤ low) (hless : low < place)
include hlow hless

theorem mul_le_iff (bound sum : Int) : bound * place ≤ low + place * sum ↔ bound ≤ sum := by
  have hplace : 0 ≤ place := hlow.trans hless.le
  constructor
  · intro hle
    by_contra hsmall
    have hnext := Int.mul_le_mul_of_nonneg_left (Int.add_one_le_of_lt (not_le.mp hsmall)) hplace
    rw [Int.mul_add, Int.mul_one, Int.mul_comm place bound] at hnext
    omega
  · intro hle
    have hmore := Int.mul_le_mul_of_nonneg_left hle hplace
    rw [Int.mul_comm place bound] at hmore
    omega

theorem emod_mul (sum : Int) : (low + place * sum) % (16 * place) = low + place * (sum % 16) := by
  have hsum : low + place * sum = low + place * (sum % 16) + 16 * place * (sum / 16) := by
    conv_lhs => rw [← Int.emod_add_mul_ediv sum 16]
    ring
  have hplace : 0 ≤ place := hlow.trans hless.le
  have hdigit := Int.emod_nonneg sum (by decide : (16 : Int) ≠ 0)
  have hbound : sum % 16 ≤ 15 := Int.le_of_lt_add_one (Int.emod_lt_of_pos sum (by decide))
  have hzero := Int.mul_nonneg hplace hdigit
  have hmost := Int.mul_le_mul_of_nonneg_left hbound hplace
  rw [hsum, Int.add_mul_emod_self_left]
  exact Int.emod_eq_of_lt (by omega) (by omega)

end Place

-- A correction moves with its place, whatever is below, and makes the digits and carries of
-- `adjust`.
structure Corrects (correct : Int → Int → Int) (adjust : Nat → Nat × Bool) : Prop where
  scales : ∀ {place low : Int}, 0 ≤ low → low < place → ∀ sum,
    correct place (low + place * sum) = low + place * correct 1 sum
  digit : ∀ sum : Nat, correct 1 sum % 16 = (adjust sum).1
  carry : ∀ sum : Nat, (adjust sum).2 = decide (16 ≤ correct 1 sum)

theorem corrects_sum : Corrects correctSum DigitSum.decimal where
  scales {place low} hlow hless sum := by
    simp only [correctSum, mul_le_iff hlow hless 10 sum]
    split <;> split <;> first | omega | ring
  digit sum := by
    unfold correctSum DigitSum.decimal
    split <;> split <;> omega
  carry sum := by
    unfold correctSum DigitSum.decimal
    split <;> split <;> simp <;> omega

theorem corrects_binary : Corrects (fun _ sum => sum) DigitSum.binary where
  scales _ _ _ := rfl
  digit _ := rfl
  carry sum := by
    rw [DigitSum.binary, decide_eq_decide]
    omega

theorem corrects_difference : Corrects correctDifference DigitSum.decimalBorrow where
  scales {place low} hlow hless sum := by
    simp only [correctDifference, ← not_le, mul_le_iff hlow hless 16 sum]
    split <;> split <;> first | omega | ring
  digit sum := by
    unfold correctDifference DigitSum.decimalBorrow
    split <;> split <;> omega
  carry sum := by
    unfold correctDifference DigitSum.decimalBorrow
    split <;> split <;> simp <;> omega

-- The running sum goes from digit to digit like the sum that is formed digit by digit.

section Corrects

variable {correct : Int → Int → Int} {adjust : Nat → Nat × Bool}
  (hcorrects : Corrects correct adjust)
include hcorrects

theorem Corrects.digit_lt (sum : Nat) : (adjust sum).1 < 16 := by
  have hdigit := hcorrects.digit sum
  have hlt := Int.emod_lt_of_pos (correct 1 sum) (by decide : (0 : Int) < 16)
  omega

variable (a b : Nat) (carry : Bool) (index : Nat)

theorem correct_running :
    correct (16 ^ index) (running adjust a b carry index) =
      (ripple adjust index a b carry).value +
        16 ^ index * correct 1 (sumAt adjust a b carry index) := by
  have hless := ripple_lt hcorrects.digit_lt index a b carry
  rw [running]
  push_cast
  exact hcorrects.scales (Int.natCast_nonneg _) (by exact_mod_cast hless) _

theorem correct_emod :
    correct (16 ^ index) (running adjust a b carry index) % 16 ^ (index + 1) =
      (ripple adjust (index + 1) a b carry).value := by
  have hless := ripple_lt hcorrects.digit_lt index a b carry
  rw [correct_running hcorrects, pow_succ', emod_mul (Int.natCast_nonneg _)
    (by exact_mod_cast hless), hcorrects.digit, ripple_succ]
  push_cast
  rfl

theorem carry_eq :
    (ripple adjust (index + 1) a b carry).carry =
      decide (16 ^ (index + 1) ≤ correct (16 ^ index) (running adjust a b carry index)) := by
  have hless := ripple_lt hcorrects.digit_lt index a b carry
  rw [correct_running hcorrects, pow_succ', ripple_succ, hcorrects.carry, decide_eq_decide]
  exact (mul_le_iff (Int.natCast_nonneg _) (by exact_mod_cast hless) 16 _).symm

theorem running_succ :
    let place : Int := 16 ^ (index + 1)
    let below := correct (16 ^ index) (running adjust a b carry index)
    a / place % 16 * place + b / place % 16 * place + below % place +
        (if place ≤ below then place else 0) =
      running adjust a b carry (index + 1) := by
  intro place below
  have hcarry : (if place ≤ below then place else 0) =
      place * ((ripple adjust (index + 1) a b carry).carry.toNat : Int) := by
    rw [carry_eq hcorrects]
    by_cases hreached : place ≤ below <;> simp [hreached, place, below]
  rw [correct_emod hcorrects, hcarry, running, sumAt]
  push_cast
  change _ = _ + place * (a / place % 16 + b / place % 16 + _)
  ring

theorem addDigits_running (remaining : Nat) :
    addDigits correct a b (16 ^ (index + 1)) (running adjust a b carry index) remaining =
      running adjust a b carry (index + remaining) := by
  induction remaining generalizing index with
  | zero => rfl
  | succ remaining ih =>
      have hplace : (16 : Int) ^ (index + 1) / 16 = 16 ^ index := by
        rw [pow_succ]
        exact Int.mul_ediv_cancel _ (by decide)
      rw [addDigits, hplace]
      rw [running_succ hcorrects, ← pow_succ', ih (index + 1), Nat.succ_add_eq_add_succ]

end Corrects

section Conclude

variable (width : Width)

theorem succ_pred_digits : width.digits - 1 + 1 = width.digits := by
  cases width <;> rfl

theorem toNat_ofInt (n : Int) : ((UInt16.ofInt n).toNat : Int) = n % 2 ^ 16 := by
  have hnonneg := Int.emod_nonneg n (by decide : (2 ^ 16 : Int) ≠ 0)
  have hlt := Int.emod_lt_of_pos n (by decide : (0 : Int) < 2 ^ 16)
  rw [UInt16.ofInt, UInt16.toNat_ofNat', Nat.mod_eq_of_lt (by omega)]
  exact Int.toNat_of_nonneg hnonneg

theorem toNat_truncate_ofInt (n : Int) :
    ((width.truncate (UInt16.ofInt n)).toNat : Int) = n % 16 ^ width.digits := by
  have hdvd : (16 : Int) ^ width.digits ∣ 2 ^ 16 := by cases width <;> decide
  rw [Width.toNat_truncate]
  push_cast
  rw [toNat_ofInt, Int.emod_emod_of_dvd n hdvd]

theorem mask_lt_iff (n : Int) : (width.mask.toNat : Int) < n ↔ 16 ^ width.digits ≤ n := by
  cases width <;> simp [Width.mask, Width.digits] <;> omega

-- The bits of V are the signs: those of the operands agree, and that of the sum does not.
theorem overflow_eq (a b sum : UInt16) :
    (~~~(a ^^^ b) &&& (a ^^^ sum) &&& width.signBit != 0) =
      (a.toNat.testBit (width.bits - 1) == b.toNat.testBit (width.bits - 1) &&
        a.toNat.testBit (width.bits - 1) != sum.toNat.testBit (width.bits - 1)) := by
  have hlt : width.bits - 1 < 16 := by cases width <;> decide
  rw [Width.and_signBit_ne_zero]
  change (~~~(a.toBitVec ^^^ b.toBitVec) &&& (a.toBitVec ^^^ sum.toBitVec)).getLsbD _ =
    (a.toBitVec.getLsbD _ == b.toBitVec.getLsbD _ &&
      a.toBitVec.getLsbD _ != sum.toBitVec.getLsbD _)
  rw [BitVec.getLsbD_and, BitVec.getLsbD_not, BitVec.getLsbD_xor, BitVec.getLsbD_xor,
    decide_eq_true hlt, Bool.true_and]
  cases a.toBitVec.getLsbD (width.bits - 1) <;> cases b.toBitVec.getLsbD (width.bits - 1) <;> simp

variable {adjust : Nat → Nat × Bool} (hdigit : ∀ sum, (adjust sum).1 < 16)

-- The sign of a running sum is the highest bit of the digits on top.
include hdigit in
theorem testBit_running (a b : Nat) (carry : Bool) :
    (UInt16.ofInt (running adjust a b carry (width.digits - 1))).toNat.testBit (width.bits - 1) =
      (sumAt adjust a b carry (width.digits - 1)).testBit 3 := by
  have hlow := ripple_lt hdigit (width.digits - 1) a b carry
  have hlt : width.bits - 1 < 16 := by cases width <;> decide
  have hbits : width.bits - 1 = 3 + 4 * (width.digits - 1) := by cases width <;> rfl
  have hnat : (UInt16.ofInt (running adjust a b carry (width.digits - 1))).toNat =
      running adjust a b carry (width.digits - 1) % 2 ^ 16 := by
    exact_mod_cast toNat_ofInt (running adjust a b carry (width.digits - 1) : Nat)
  rw [hnat, Nat.testBit_mod_two_pow, decide_eq_true hlt, Bool.true_and, hbits,
    ← Nat.testBit_div_two_pow, Nat.pow_mul, running, Nat.add_mul_div_left _ _ (by positivity),
    Nat.div_eq_of_lt hlow, Nat.zero_add]

-- N and Z look at no more than the width.
theorem describe_truncate (value : UInt16) (p : Status) :
    p.describe width (width.truncate value) = p.describe width value := by
  have hsign : width.mask &&& width.signBit = width.signBit := by cases width <;> rfl
  have hnegative : width.truncate value &&& width.signBit = value &&& width.signBit := by
    rw [Width.truncate, UInt16.and_assoc, hsign]
  rw [Status.describe, Status.describe, Width.truncate_truncate, hnegative]

variable (a b : UInt16) (p : Status)

-- The sum in front of the last correction.
def runningSum (adjust : Nat → Nat × Bool) : Nat :=
  running adjust (width.truncate a).toNat (width.truncate b).toNat (p.has .carry) (width.digits - 1)

theorem ripple_truncate :
    ripple adjust (width.digits - 1 + 1) (width.truncate a).toNat (width.truncate b).toNat
      (p.has .carry) = digitSum adjust width a b p := by
  rw [succ_pred_digits, Width.toNat_truncate, Width.toNat_truncate, ripple_mod, digitSum]

include hdigit in
theorem testBit_runningSum :
    (UInt16.ofInt (runningSum width a b p adjust)).toNat.testBit (width.bits - 1) =
      (digitSum adjust width a b p).top.testBit 3 := by
  rw [runningSum, testBit_running width hdigit, ← ripple_truncate, ripple_succ]

variable {correct : Int → Int → Int} (hcorrects : Corrects correct adjust)
include hcorrects

theorem truncate_correct :
    width.truncate
        (UInt16.ofInt (correct (16 ^ (width.digits - 1)) (runningSum width a b p adjust))) =
      (digitSum adjust width a b p).value.toUInt16 := by
  have hlast := correct_emod hcorrects (width.truncate a).toNat (width.truncate b).toNat
    (p.has .carry) (width.digits - 1)
  have hlt : (digitSum adjust width a b p).value < 16 ^ width.digits :=
    ripple_lt hcorrects.digit_lt width.digits a.toNat b.toNat (p.has .carry)
  have hword : 16 ^ width.digits ≤ UInt16.size := by cases width <;> decide
  rw [ripple_truncate, succ_pred_digits, ← runningSum, ← toNat_truncate_ofInt] at hlast
  apply UInt16.toNat_inj.mp
  rw [Nat.toUInt16, UInt16.toNat_ofNat_of_lt' (hlt.trans_le hword)]
  exact_mod_cast hlast

theorem mask_lt_correct :
    decide (width.mask.toNat < correct (16 ^ (width.digits - 1)) (runningSum width a b p adjust)) =
      (digitSum adjust width a b p).carry := by
  have hlast := carry_eq hcorrects (width.truncate a).toNat (width.truncate b).toNat
    (p.has .carry) (width.digits - 1)
  rw [ripple_truncate, succ_pred_digits, ← runningSum] at hlast
  rw [hlast, decide_eq_decide]
  exact mask_lt_iff width _

theorem conclude_runningSum :
    conclude width (width.truncate a) (width.truncate b) (runningSum width a b p adjust)
        (correct (16 ^ (width.digits - 1)) (runningSum width a b p adjust)) p =
      accumulate adjust width a b p := by
  have hsign {value : UInt16} : (width.truncate value).toNat.testBit (width.bits - 1) =
      value.toNat.testBit (width.bits - 1) :=
    Width.testBit_truncate (Nat.sub_lt width.bits_pos (by decide)) value
  rw [conclude, overflow_eq, mask_lt_correct width a b p hcorrects, ← describe_truncate,
    truncate_correct width a b p hcorrects, testBit_runningSum width hcorrects.digit_lt, hsign,
    hsign, accumulate, Width.bits_div_four, ← digitSum, Width.and_signBit_ne_zero,
    Width.and_signBit_ne_zero]

theorem addCorrected_eq :
    addCorrected correct width a b p =
      accumulate (if p.has .decimal then adjust else DigitSum.binary) width a b p := by
  rw [addCorrected]
  dsimp only
  split
  · have hsum := addDigits_running hcorrects (width.truncate a).toNat (width.truncate b).toNat
      (p.has .carry) 0 (width.digits - 1)
    rw [running_zero, Nat.zero_add, Nat.zero_add, pow_one, ← runningSum] at hsum
    push_cast at hsum
    have hhighest : ((1 <<< (width.bits - 4) : Nat) : Int) = 16 ^ (width.digits - 1) := by
      cases width <;> rfl
    rw [Width.bits_div_four, hsum, hhighest]
    exact conclude_runningSum width a b p hcorrects
  · have hsum : runningSum width a b p DigitSum.binary =
        (width.truncate a).toNat + (width.truncate b).toNat + (p.has .carry).toNat := by
      rw [runningSum, running_binary, succ_pred_digits, Width.sixteen_pow_digits,
        Nat.mod_eq_of_lt (width.toNat_truncate_lt a), Nat.mod_eq_of_lt (width.toNat_truncate_lt b)]
    have hbinary := conclude_runningSum width a b p corrects_binary
    rw [hsum] at hbinary
    exact_mod_cast hbinary

end Conclude

theorem addWithCarry_eq (width : Width) (a b : UInt16) (p : Status) :
    addWithCarry width a b p =
      accumulate (if p.has .decimal then DigitSum.decimal else DigitSum.binary) width a b p :=
  addCorrected_eq width a b p corrects_sum

theorem subtractWithBorrow_eq (width : Width) (a b : UInt16) (p : Status) :
    subtractWithBorrow width a b p =
      accumulate (if p.has .decimal then DigitSum.decimalBorrow else DigitSum.binary) width a (~~~b)
        p :=
  addCorrected_eq width a (~~~b) p corrects_difference

end Arithmetic

end Console816
