import Console816.Proofs.Arithmetic.RunningSum

namespace Console816

-- Binary-coded decimal has a decimal digit in every four bits, and is read digit by digit from the
-- lowest on. `count` tells how many digits there are.
namespace Bcd

def decode : Nat → Nat → Nat
  | 0, _ => 0
  | count + 1, code => code % 16 + 10 * decode count (code / 16)

-- The lowest digits of a number.
def encode : Nat → Nat → Nat
  | 0, _ => 0
  | count + 1, number => number % 10 + 16 * encode count (number / 10)

-- Bits above the digits do not matter.
def Valid (count code : Nat) : Prop := ∀ index < count, code / 16 ^ index % 16 ≤ 9

instance (count code : Nat) : Decidable (Valid count code) := by
  unfold Valid
  infer_instance

theorem valid_succ {count code : Nat} :
    Valid (count + 1) code ↔ code % 16 ≤ 9 ∧ Valid count (code / 16) := by
  have hshift (index : Nat) : code / 16 / 16 ^ index = code / 16 ^ (index + 1) := by
    rw [Nat.div_div_eq_div_mul, Nat.pow_succ']
  simp only [Valid, hshift]
  constructor
  · intro hvalid
    refine ⟨by simpa using hvalid 0 (Nat.succ_pos _), fun index hindex => ?_⟩
    exact hvalid (index + 1) (Nat.succ_lt_succ hindex)
  · rintro ⟨hlow, hupper⟩ index hindex
    cases index with
    | zero => simpa using hlow
    | succ index => exact hupper index (Nat.lt_of_succ_lt_succ hindex)

theorem valid_encode (count number : Nat) : Valid count (encode count number) := by
  induction count generalizing number with
  | zero => exact fun _ hindex => absurd hindex (Nat.not_lt_zero _)
  | succ count ih =>
      have hdigit : number % 10 < 10 := Nat.mod_lt _ (by decide)
      have hlow : encode (count + 1) number % 16 = number % 10 := by
        rw [encode]
        omega
      have hupper : encode (count + 1) number / 16 = encode count (number / 10) := by
        rw [encode]
        omega
      rw [valid_succ, hlow, hupper]
      exact ⟨by omega, ih _⟩

-- Digits past the last are dropped.
theorem encode_mod (count number : Nat) :
    encode count (number % 10 ^ count) = encode count number := by
  induction count generalizing number with
  | zero => rfl
  | succ count ih =>
      have hlow : number % 10 ^ (count + 1) % 10 = number % 10 :=
        Nat.mod_mod_of_dvd _ (Nat.pow_succ' ▸ Nat.dvd_mul_right ..)
      have hupper : number % 10 ^ (count + 1) / 10 = number / 10 % 10 ^ count := by
        rw [Nat.pow_succ']
        exact Nat.mod_mul_right_div_self ..
      rw [encode, hlow, hupper, ih, encode]

theorem decode_encode (count number : Nat) :
    decode count (encode count number) = number % 10 ^ count := by
  induction count generalizing number with
  | zero => exact (Nat.mod_one number).symm
  | succ count ih =>
      have hdigit : number % 10 < 10 := Nat.mod_lt _ (by decide)
      have hlow : (number % 10 + 16 * encode count (number / 10)) % 16 = number % 10 := by omega
      have hupper : (number % 10 + 16 * encode count (number / 10)) / 16 =
          encode count (number / 10) := by omega
      rw [encode, decode, hlow, hupper, ih, Nat.pow_succ', Nat.mod_mul]

theorem encode_decode {count code : Nat} (hvalid : Valid count code) :
    encode count (decode count code) = code % 16 ^ count := by
  induction count generalizing code with
  | zero => exact (Nat.mod_one code).symm
  | succ count ih =>
      obtain ⟨hlow, hupper⟩ := valid_succ.mp hvalid
      have hdigit : (code % 16 + 10 * decode count (code / 16)) % 10 = code % 16 := by omega
      have hrest : (code % 16 + 10 * decode count (code / 16)) / 10 = decode count (code / 16) := by
        omega
      rw [decode, encode, hdigit, hrest, ih hupper, Nat.pow_succ', Nat.mod_mul]

theorem decode_lt {count code : Nat} (hvalid : Valid count code) :
    decode count code < 10 ^ count := by
  induction count generalizing code with
  | zero => exact Nat.one_pos
  | succ count ih =>
      obtain ⟨hlow, hupper⟩ := valid_succ.mp hvalid
      have hrest := ih hupper
      rw [decode, Nat.pow_succ']
      omega

end Bcd

namespace DigitSum

open Bcd

-- A carry leaves the sum of two decimal digits exactly where the digit does.
theorem decimal_eq {sum : Nat} (hsum : sum ≤ 19) : decimal sum = (sum % 10, decide (10 ≤ sum)) := by
  unfold decimal
  split
  · rename_i hlt
    rw [Nat.mod_eq_of_lt hlt, decide_eq_false (by omega)]
  · rename_i hle
    rw [decide_eq_true (by omega : 10 ≤ sum), show (sum + 6) % 16 = sum % 10 by omega]

-- The complement to 15 of a digit adjusts to what its complement to 9 would.
theorem decimalBorrow_eq {sum : Nat} (hlow : 6 ≤ sum) (hhigh : sum ≤ 25) :
    decimalBorrow sum = ((sum - 6) % 10, decide (10 ≤ sum - 6)) := by
  unfold decimalBorrow
  split
  · rw [decide_eq_false (by omega), show (sum + 10) % 16 = (sum - 6) % 10 by omega]
  · rw [decide_eq_true (by omega : 10 ≤ sum - 6), show sum % 16 = (sum - 6) % 10 by omega]

-- One digit of a decimal sum, and the digits above it.
theorem ripple_step {adjust : Nat → Nat × Bool} {count a b digits upper : Nat} {carry : Bool}
    (hadjust : adjust (a % 16 + b % 16 + carry.toNat) = (digits % 10, decide (10 ≤ digits)))
    (hdigits : digits ≤ 19)
    (hupper : ∀ next, (ripple adjust count (a / 16) (b / 16) next).value =
        encode count (upper + next.toNat) ∧
      (ripple adjust count (a / 16) (b / 16) next).carry =
        decide (10 ^ count ≤ upper + next.toNat)) :
    (ripple adjust (count + 1) a b carry).value = encode (count + 1) (digits + 10 * upper) ∧
      (ripple adjust (count + 1) a b carry).carry =
        decide (10 ^ (count + 1) ≤ digits + 10 * upper) := by
  obtain ⟨hvalue, hcarry⟩ := hupper (decide (10 ≤ digits))
  have hnext : upper + (decide (10 ≤ digits)).toNat = (digits + 10 * upper) / 10 := by
    by_cases hten : 10 ≤ digits <;> simp [hten] <;> omega
  have hlow : (digits + 10 * upper) % 10 = digits % 10 := Nat.add_mul_mod_self_left ..
  simp only [ripple, hadjust, hvalue, hcarry, hnext]
  refine ⟨by rw [encode, hlow], ?_⟩
  rw [decide_eq_decide, Nat.le_div_iff_mul_le (by decide), ← Nat.pow_succ]

theorem ripple_decimal {count a b : Nat} (ha : Valid count a) (hb : Valid count b) (carry : Bool) :
    (ripple decimal count a b carry).value =
        encode count (decode count a + decode count b + carry.toNat) ∧
      (ripple decimal count a b carry).carry =
        decide (10 ^ count ≤ decode count a + decode count b + carry.toNat) := by
  induction count generalizing a b carry with
  | zero => cases carry <;> exact ⟨rfl, rfl⟩
  | succ count ih =>
      obtain ⟨hadigit, hupperA⟩ := valid_succ.mp ha
      obtain ⟨hbdigit, hupperB⟩ := valid_succ.mp hb
      have hcarry := Bool.toNat_le carry
      have hdigits : a % 16 + b % 16 + carry.toNat ≤ 19 := by omega
      have hstep := ripple_step (decimal_eq hdigits) hdigits (ih hupperA hupperB)
      have hsum : decode (count + 1) a + decode (count + 1) b + carry.toNat =
          a % 16 + b % 16 + carry.toNat +
            10 * (decode count (a / 16) + decode count (b / 16)) := by
        rw [decode, decode]
        ring
      rw [hsum]
      exact hstep

-- Subtracting is adding the complement to nines, digit by digit.
theorem ripple_decimalBorrow {count a b complement : Nat} (ha : Valid count a) (hb : Valid count b)
    (hcomplement : ∀ index < count, b / 16 ^ index % 16 + complement / 16 ^ index % 16 = 15)
    (carry : Bool) :
    (ripple decimalBorrow count a complement carry).value =
        encode count (decode count a + (10 ^ count - 1 - decode count b) + carry.toNat) ∧
      (ripple decimalBorrow count a complement carry).carry =
        decide (10 ^ count ≤ decode count a + (10 ^ count - 1 - decode count b) + carry.toNat) := by
  induction count generalizing a b complement carry with
  | zero => cases carry <;> exact ⟨rfl, rfl⟩
  | succ count ih =>
      obtain ⟨hadigit, hupperA⟩ := valid_succ.mp ha
      obtain ⟨hbdigit, hupperB⟩ := valid_succ.mp hb
      have hcarry := Bool.toNat_le carry
      have hlow : b % 16 + complement % 16 = 15 := by
        simpa using hcomplement 0 (Nat.succ_pos _)
      have hupper : ∀ index < count,
          b / 16 / 16 ^ index % 16 + complement / 16 / 16 ^ index % 16 = 15 := by
        intro index hindex
        have hnext := hcomplement (index + 1) (Nat.succ_lt_succ hindex)
        rwa [Nat.pow_succ', ← Nat.div_div_eq_div_mul, ← Nat.div_div_eq_div_mul] at hnext
      have hdigit : a % 16 + (9 - b % 16) + carry.toNat =
          a % 16 + complement % 16 + carry.toNat - 6 := by omega
      have hleast : 6 ≤ a % 16 + complement % 16 + carry.toNat := by omega
      have hadjust := decimalBorrow_eq hleast (by omega)
      rw [← hdigit] at hadjust
      have hstep := ripple_step hadjust (by omega) (ih hupperA hupperB hupper)
      have hbound := decode_lt hupperB
      have hsum : decode (count + 1) a + (10 ^ (count + 1) - 1 - decode (count + 1) b) +
            carry.toNat =
          a % 16 + (9 - b % 16) + carry.toNat +
            10 * (decode count (a / 16) + (10 ^ count - 1 - decode count (b / 16))) := by
        rw [decode, decode, Nat.pow_succ']
        omega
      rw [hsum]
      exact hstep

end DigitSum

namespace Arithmetic

open Bcd

-- What an operation on decimal digits comes to: its digits, C, and N and Z about them. V means
-- nothing here, and the rest of the status is kept.
structure DecimalOutcome (width : Width) (p : Status) (number : Nat) (carry : Prop)
    (answer : UInt16 × Status) : Prop where
  value : answer.1.toNat = encode width.digits number
  carry : answer.2.has .carry = true ↔ carry
  zero : answer.2.has .zero = true ↔ answer.1 = 0
  negative : answer.2.has .negative = answer.1.toNat.testBit (width.bits - 1)
  others : ∀ flag, flag ∉ [.carry, .zero, .negative, .overflow] → answer.2.has flag = p.has flag

theorem DecimalOutcome.accumulate {adjust : Nat → Nat × Bool} {width : Width} {a b : UInt16}
    {p : Status} {number : Nat} {carry : Prop} [Decidable carry]
    (hdigit : ∀ sum, (adjust sum).1 < 16)
    (hvalue : (digitSum adjust width a b p).value = encode width.digits number)
    (hcarry : (digitSum adjust width a b p).carry = decide carry) :
    DecimalOutcome width p number carry (Arithmetic.accumulate adjust width a b p) where
  value := (toNat_accumulate hdigit).trans hvalue
  carry := by rw [carry_accumulate, hcarry, decide_eq_true_iff]
  zero := by rw [zero_accumulate hdigit, beq_iff_eq]
  negative := negative_accumulate
  others _ hflag := has_accumulate_of_ne hflag

theorem DecimalOutcome.valid {width : Width} {p : Status} {number : Nat} {carry : Prop}
    {answer : UInt16 × Status} (houtcome : DecimalOutcome width p number carry answer) :
    Valid width.digits answer.1.toNat :=
  houtcome.value ▸ valid_encode _ _

section Operands

variable {width : Width} {a b : UInt16} {p : Status}

theorem addWithCarry_outcome (hdecimal : p.has .decimal = true)
    (ha : Valid width.digits a.toNat) (hb : Valid width.digits b.toNat) :
    DecimalOutcome width p
      ((decode width.digits a.toNat + decode width.digits b.toNat + (p.has .carry).toNat) %
        10 ^ width.digits)
      (10 ^ width.digits ≤
        decode width.digits a.toNat + decode width.digits b.toNat + (p.has .carry).toNat)
      (addWithCarry width a b p) := by
  obtain ⟨hvalue, hcarry⟩ := DigitSum.ripple_decimal ha hb (p.has .carry)
  rw [addWithCarry_eq, if_pos hdecimal]
  exact .accumulate DigitSum.decimal_lt (hvalue.trans (encode_mod _ _).symm) hcarry

-- Without a borrow the complement to nines and the carry make one round of the digits too many.
theorem subtractWithBorrow_outcome (hdecimal : p.has .decimal = true)
    (ha : Valid width.digits a.toNat) (hb : Valid width.digits b.toNat) :
    DecimalOutcome width p
      (((decode width.digits a.toNat : Int) - decode width.digits b.toNat -
        (1 - (p.has .carry).toNat)) % 10 ^ width.digits).toNat
      (decode width.digits b.toNat + (1 - (p.has .carry).toNat) ≤ decode width.digits a.toNat)
      (subtractWithBorrow width a b p) := by
  have hbound := decode_lt hb
  have hone := Bool.toNat_le (p.has .carry)
  obtain ⟨hvalue, hcarry⟩ := DigitSum.ripple_decimalBorrow ha hb
    (fun _ hindex => Width.not_digit hindex b) (p.has .carry)
  have hround : ((decode width.digits a.toNat +
        (10 ^ width.digits - 1 - decode width.digits b.toNat) + (p.has .carry).toNat : Nat) : Int) =
      (decode width.digits a.toNat : Int) - decode width.digits b.toNat -
        (1 - (p.has .carry).toNat) + 10 ^ width.digits := by
    have hpow : ((10 ^ width.digits : Nat) : Int) = 10 ^ width.digits := Nat.cast_pow ..
    rw [← hpow]
    generalize 10 ^ width.digits = round at hbound ⊢
    omega
  have hnumber : (((decode width.digits a.toNat : Int) - decode width.digits b.toNat -
        (1 - (p.has .carry).toNat)) % 10 ^ width.digits).toNat =
      (decode width.digits a.toNat + (10 ^ width.digits - 1 - decode width.digits b.toNat) +
        (p.has .carry).toNat) % 10 ^ width.digits := by
    rw [← Int.add_emod_right, ← hround]
    exact_mod_cast rfl
  rw [subtractWithBorrow_eq, if_pos hdecimal, hnumber]
  refine .accumulate DigitSum.decimalBorrow_lt (hvalue.trans (encode_mod _ _).symm)
    (hcarry.trans ?_)
  rw [decide_eq_decide]
  omega

-- What was added can be taken away again, when the carry that came in is borrowed.
theorem subtractWithBorrow_addWithCarry {q : Status} (hdecimal : p.has .decimal = true)
    (ha : Valid width.digits a.toNat) (hb : Valid width.digits b.toNat)
    (hagain : q.has .decimal = true) (hborrow : q.has .carry = !p.has .carry) :
    (subtractWithBorrow width (addWithCarry width a b p).1 b q).1 = width.truncate a := by
  have hsum := addWithCarry_outcome hdecimal ha hb
  have hrest := subtractWithBorrow_outcome hagain hsum.valid hb
  have hcarries : 1 - ((q.has .carry).toNat : Int) = (p.has .carry).toNat := by
    rw [hborrow]
    cases p.has .carry <;> rfl
  have hdecoded : decode width.digits (addWithCarry width a b p).1.toNat =
      (decode width.digits a.toNat + decode width.digits b.toNat + (p.has .carry).toNat) %
        10 ^ width.digits := by
    rw [hsum.value, decode_encode, Nat.mod_mod]
  have hnumber : (((decode width.digits (addWithCarry width a b p).1.toNat : Int) -
        decode width.digits b.toNat - (1 - (q.has .carry).toNat)) % 10 ^ width.digits).toNat =
      decode width.digits a.toNat := by
    rw [hdecoded, hcarries, Int.natCast_emod, Int.sub_sub]
    push_cast
    rw [Int.emod_sub_emod, Int.add_assoc, Int.add_sub_cancel]
    exact_mod_cast Nat.mod_eq_of_lt (decode_lt ha)
  apply UInt16.toNat_inj.mp
  rw [hrest.value, hnumber, encode_decode ha, Width.toNat_truncate]

theorem decimal_exact (hdecimal : p.has .decimal = true) (ha : Valid width.digits a.toNat)
    (hb : Valid width.digits b.toNat) :
    DecimalOutcome width p
        ((decode width.digits a.toNat + decode width.digits b.toNat + (p.has .carry).toNat) %
          10 ^ width.digits)
        (10 ^ width.digits ≤
          decode width.digits a.toNat + decode width.digits b.toNat + (p.has .carry).toNat)
        (addWithCarry width a b p) ∧
      DecimalOutcome width p
        (((decode width.digits a.toNat : Int) - decode width.digits b.toNat -
          (1 - (p.has .carry).toNat)) % 10 ^ width.digits).toNat
        (decode width.digits b.toNat + (1 - (p.has .carry).toNat) ≤ decode width.digits a.toNat)
        (subtractWithBorrow width a b p) ∧
      Valid width.digits (addWithCarry width a b p).1.toNat ∧
      Valid width.digits (subtractWithBorrow width a b p).1.toNat ∧
      ∀ q : Status, q.has .decimal = true → q.has .carry = !p.has .carry →
        (subtractWithBorrow width (addWithCarry width a b p).1 b q).1 = width.truncate a := by
  have hsum := addWithCarry_outcome hdecimal ha hb
  have hdifference := subtractWithBorrow_outcome hdecimal ha hb
  exact ⟨hsum, hdifference, hsum.valid, hdifference.valid,
    fun _ => subtractWithBorrow_addWithCarry hdecimal ha hb⟩

end Operands

theorem decimal_exact_ninety_nine_bytes :
    DecimalOutcome .byte ⟨0x09⟩ 99 True (addWithCarry .byte 0x1299 0x99 ⟨0x09⟩) ∧
      DecimalOutcome .byte ⟨0x09⟩ 0 True (subtractWithBorrow .byte 0x1299 0x99 ⟨0x09⟩) ∧
      (subtractWithBorrow .byte (addWithCarry .byte 0x1299 0x99 ⟨0x09⟩).1 0x99 ⟨0x08⟩).1 =
        0x99 := by
  obtain ⟨hsum, hdifference, -, -, hagain⟩ :=
    @decimal_exact .byte 0x1299 0x99 ⟨0x09⟩ (by decide) (by decide) (by decide)
  exact ⟨⟨hsum.value, by decide, hsum.zero, hsum.negative, hsum.others⟩,
    ⟨hdifference.value, by decide, hdifference.zero, hdifference.negative, hdifference.others⟩,
    hagain ⟨0x08⟩ (by decide) (by decide)⟩

end Arithmetic

end Console816
