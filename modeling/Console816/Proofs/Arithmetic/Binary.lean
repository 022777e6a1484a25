import Console816.Proofs.Arithmetic.RunningSum

namespace Console816

namespace DigitSum

-- The highest digit is the sum at its place, without the carry.
theorem ripple_binary_top (count a b : Nat) (carry : Bool) :
    (ripple binary (count + 1) a b carry).value / 16 ^ count =
      (ripple binary (count + 1) a b carry).top % 16 := by
  induction count generalizing a b carry with
  | zero => simp [ripple, binary]
  | succ count ih =>
      have hupper := ih (a / 16) (b / 16) (binary (a % 16 + b % 16 + carry.toNat)).2
      have hdigit := binary_lt (a % 16 + b % 16 + carry.toNat)
      rw [ripple]
      simp only [Nat.add_one_ne_zero, if_false]
      rw [← hupper, Nat.pow_succ', ← Nat.div_div_eq_div_mul]
      congr 1
      omega

end DigitSum

namespace Width

-- The number that a word stands for with the highest bit of the width as its sign.
def signed (width : Width) (value : UInt16) : Int := (value.toNat : Int).bmod (2 ^ width.bits)

theorem signed_eq (width : Width) (value : UInt16) :
    width.signed value = (width.truncate value).toNat -
      if 2 ^ (width.bits - 1) ≤ (width.truncate value).toNat then 2 ^ width.bits else 0 := by
  rw [signed, toNat_truncate, sixteen_pow_digits, Int.bmod_def]
  cases width <;> simp only [bits] <;> omega

theorem testBit_sign (width : Width) (value : UInt16) :
    value.toNat.testBit (width.bits - 1) =
      decide (2 ^ (width.bits - 1) ≤ (width.truncate value).toNat) := by
  rw [Nat.testBit_eq_decide_div_mod_eq, toNat_truncate, sixteen_pow_digits, decide_eq_decide]
  cases width <;> simp only [bits] <;> omega

-- The complement stands for what is lacking to the largest number, and to minus one.

theorem toNat_truncate_not (width : Width) (value : UInt16) :
    (width.truncate (~~~value)).toNat = 2 ^ width.bits - 1 - (width.truncate value).toNat := by
  have hnot : (~~~value).toNat = 0xFFFF - value.toNat := UInt16.toNat_not value
  have hvalue := value.toNat_lt
  rw [toNat_truncate, toNat_truncate, hnot, sixteen_pow_digits]
  cases width <;> simp only [bits] <;> omega

theorem signed_not (width : Width) (value : UInt16) :
    width.signed (~~~value) = -1 - width.signed value := by
  have hlt := width.toNat_truncate_lt value
  rw [signed_eq, signed_eq, toNat_truncate_not]
  cases width <;> simp only [bits] at * <;> omega

end Width

namespace Arithmetic

-- What an operation on binary numbers comes to: the number it gives, cut to the width, and flags.
-- C is about the unsigned numbers, V about the signed ones, and the rest of the status is kept.
structure BinaryOutcome (width : Width) (p : Status) (number : Int) (carry : Prop) (signed : Int)
    (answer : UInt16 × Status) : Prop where
  value : (answer.1.toNat : Int) = number % 2 ^ width.bits
  carry : answer.2.has .carry = true ↔ carry
  overflow : answer.2.has .overflow = true ↔
    ¬(-2 ^ (width.bits - 1) ≤ signed ∧ signed ≤ 2 ^ (width.bits - 1) - 1)
  zero : answer.2.has .zero = true ↔ answer.1 = 0
  negative : answer.2.has .negative = answer.1.toNat.testBit (width.bits - 1)
  others : ∀ flag, flag ∉ [.carry, .zero, .negative, .overflow] → answer.2.has flag = p.has flag

section Sum

variable (width : Width) (a b : UInt16) (p : Status)

theorem accumulate_binary :
    (accumulate DigitSum.binary width a b p).1.toNat +
        2 ^ width.bits * ((accumulate DigitSum.binary width a b p).2.has .carry).toNat =
      (width.truncate a).toNat + (width.truncate b).toNat + (p.has .carry).toNat := by
  rw [toNat_accumulate DigitSum.binary_lt, carry_accumulate, Width.toNat_truncate,
    Width.toNat_truncate, ← Width.sixteen_pow_digits]
  exact DigitSum.ripple_binary ..

theorem testBit_top :
    (digitSum DigitSum.binary width a b p).top.testBit 3 =
      (accumulate DigitSum.binary width a b p).1.toNat.testBit (width.bits - 1) := by
  rw [toNat_accumulate DigitSum.binary_lt, digitSum]
  have htop (count : Nat) (carry : Bool) :
      (DigitSum.ripple DigitSum.binary (count + 1) a.toNat b.toNat carry).top.testBit 3 =
        (DigitSum.ripple DigitSum.binary (count + 1) a.toNat b.toNat carry).value.testBit
          (3 + 4 * count) := by
    calc
      _ = (_ % 2 ^ 4).testBit 3 := by
        rw [Nat.testBit_mod_two_pow]
        rfl
      _ = (_ / 2 ^ (4 * count)).testBit 3 := by
        rw [Nat.pow_mul]
        exact congrArg (Nat.testBit · 3) (DigitSum.ripple_binary_top ..).symm
      _ = _ := Nat.testBit_div_two_pow ..
  cases width with
  | byte => exact htop 1 _
  | word => exact htop 3 _

-- The sum of the signed numbers is out of range when both have a sign that the result lacks.
theorem overflow_binary :
    (accumulate DigitSum.binary width a b p).2.has .overflow = true ↔
      ¬(-2 ^ (width.bits - 1) ≤ width.signed a + width.signed b + (p.has .carry).toNat ∧
        width.signed a + width.signed b + (p.has .carry).toNat ≤ 2 ^ (width.bits - 1) - 1) := by
  have hsum := accumulate_binary width a b p
  have ha := width.toNat_truncate_lt a
  have hb := width.toNat_truncate_lt b
  have hcarry := Bool.toNat_le (p.has .carry)
  rw [overflow_accumulate, testBit_top, Width.testBit_sign, Width.testBit_sign, Width.testBit_sign,
    Width.signed_eq, Width.signed_eq]
  have hresult := width.toNat_truncate_lt (accumulate DigitSum.binary width a b p).1
  rw [truncate_accumulate DigitSum.binary_lt] at hresult ⊢
  simp only [Bool.and_eq_true, beq_iff_eq, bne_iff_ne, ne_eq, decide_eq_decide]
  have hout := Bool.toNat_le ((accumulate DigitSum.binary width a b p).2.has .carry)
  generalize ((accumulate DigitSum.binary width a b p).2.has .carry).toNat = out at hsum hout
  cases width <;> simp only [Width.bits] at * <;> omega

theorem binaryOutcome_accumulate :
    BinaryOutcome width p
      ((width.truncate a).toNat + (width.truncate b).toNat + (p.has .carry).toNat)
      (2 ^ width.bits ≤
        (width.truncate a).toNat + (width.truncate b).toNat + (p.has .carry).toNat)
      (width.signed a + width.signed b + (p.has .carry).toNat)
      (accumulate DigitSum.binary width a b p) where
  value := by
    have hsum := accumulate_binary width a b p
    have hlt := width.toNat_truncate_lt (accumulate DigitSum.binary width a b p).1
    rw [truncate_accumulate DigitSum.binary_lt] at hlt
    have hmod := congrArg (· % 2 ^ width.bits) hsum
    simp only [Nat.add_mul_mod_self_left, Nat.mod_eq_of_lt hlt] at hmod
    exact_mod_cast hmod
  carry := by
    have hsum := accumulate_binary width a b p
    have hlt := width.toNat_truncate_lt (accumulate DigitSum.binary width a b p).1
    rw [truncate_accumulate DigitSum.binary_lt] at hlt
    rw [← hsum]
    cases (accumulate DigitSum.binary width a b p).2.has .carry with
    | false => simpa using hlt
    | true => simp
  overflow := overflow_binary width a b p
  zero := by rw [zero_accumulate DigitSum.binary_lt, beq_iff_eq]
  negative := negative_accumulate
  others _ hflag := has_accumulate_of_ne hflag

end Sum

section Operands

variable {width : Width} {a b : UInt16} {p : Status}

theorem addWithCarry_binary (hbinary : p.has .decimal = false) :
    BinaryOutcome width p
      ((width.truncate a).toNat + (width.truncate b).toNat + (p.has .carry).toNat)
      (2 ^ width.bits ≤
        (width.truncate a).toNat + (width.truncate b).toNat + (p.has .carry).toNat)
      (width.signed a + width.signed b + (p.has .carry).toNat)
      (addWithCarry width a b p) := by
  rw [addWithCarry_eq, hbinary]
  exact binaryOutcome_accumulate width a b p

-- The complement and the carry make one round of the width too many.
theorem subtractWithBorrow_binary (hbinary : p.has .decimal = false) :
    BinaryOutcome width p
      ((width.truncate a).toNat - (width.truncate b).toNat - (1 - (p.has .carry).toNat))
      ((width.truncate b).toNat + (1 - (p.has .carry).toNat) ≤ (width.truncate a).toNat)
      (width.signed a - width.signed b - (1 - (p.has .carry).toNat))
      (subtractWithBorrow width a b p) := by
  have hlt := width.toNat_truncate_lt b
  have hone := Bool.toNat_le (p.has .carry)
  have hsum := binaryOutcome_accumulate width a (~~~b) p
  rw [Width.toNat_truncate_not, Width.signed_not] at hsum
  have hround : ((width.truncate a).toNat + (2 ^ width.bits - 1 - (width.truncate b).toNat : Nat) +
      (p.has .carry).toNat : Int) =
      (width.truncate a).toNat - (width.truncate b).toNat - (1 - (p.has .carry).toNat) +
        2 ^ width.bits := by
    have hpow : ((2 ^ width.bits : Nat) : Int) = 2 ^ width.bits := Nat.cast_pow ..
    rw [← hpow]
    omega
  have hsigned : width.signed a + (-1 - width.signed b) + (p.has .carry).toNat =
      width.signed a - width.signed b - (1 - (p.has .carry).toNat) := by
    omega
  rw [hround, hsigned] at hsum
  rw [subtractWithBorrow_eq, hbinary]
  exact
    { hsum with
      value := hsum.value.trans (Int.add_emod_right ..)
      carry := hsum.carry.trans (by omega) }

end Operands

section Compare

variable (width : Width) (register value : UInt16) (p : Status)

theorem carry_compare :
    (compare width register value p).has .carry =
      decide ((width.truncate value).toNat ≤ (width.truncate register).toNat) := by
  rw [compare, Status.has_describe_of_ne _ _ _ (by decide) (by decide), Status.has_put_self,
    decide_eq_decide, UInt16.le_iff_toNat_le]

theorem zero_compare :
    (compare width register value p).has .zero =
      (width.truncate (width.truncate register - width.truncate value) == 0) := by
  rw [compare, Status.describe, Status.has_put_of_ne _ _ (by decide), Status.has_put_self]

theorem negative_compare :
    (compare width register value p).has .negative =
      (width.truncate register - width.truncate value).toNat.testBit (width.bits - 1) := by
  rw [compare, Status.describe, Status.has_put_self, Width.and_signBit_ne_zero]

theorem has_compare_of_ne {flag : Flag} (hflag : flag ∉ [.carry, .zero, .negative]) :
    (compare width register value p).has flag = p.has flag := by
  simp only [List.mem_cons, List.not_mem_nil, or_false, not_or] at hflag
  obtain ⟨hc, hz, hn⟩ := hflag
  rw [compare, Status.has_describe_of_ne _ _ _ hz hn, Status.has_put_of_ne _ _ hc]

-- A subtraction without a borrow has the difference that is compared as its result.
theorem truncate_difference {q : Status} (hbinary : q.has .decimal = false)
    (hcarry : q.has .carry = true) :
    width.truncate (width.truncate register - width.truncate value) =
      (subtractWithBorrow width register value q).1 := by
  have hvalue : ((subtractWithBorrow width register value q).1.toNat : Int) = _ :=
    (subtractWithBorrow_binary hbinary).value
  have hregister := width.toNat_truncate_lt register
  have hother := width.toNat_truncate_lt value
  rw [hcarry] at hvalue
  apply UInt16.toNat_inj.mp
  rw [Width.toNat_truncate, UInt16.toNat_sub, Width.sixteen_pow_digits]
  cases width <;> simp only [Width.bits, Bool.toNat_true] at * <;> omega

theorem compare_eq_subtract {q : Status} (hbinary : q.has .decimal = false)
    (hcarry : q.has .carry = true) {flag : Flag} (hflag : flag ∈ [.carry, .zero, .negative]) :
    (compare width register value p).has flag =
      (subtractWithBorrow width register value q).2.has flag := by
  have hdifference : BinaryOutcome width q _ _ _ (subtractWithBorrow width register value q) :=
    subtractWithBorrow_binary hbinary
  have hresult := truncate_difference width register value hbinary hcarry
  simp only [List.mem_cons, List.not_mem_nil, or_false] at hflag
  rcases hflag with rfl | rfl | rfl
  · rw [carry_compare, Bool.eq_iff_iff, hdifference.carry, hcarry, decide_eq_true_iff]
    simp only [Bool.toNat_true]
    omega
  · rw [zero_compare, hresult, Bool.eq_iff_iff, hdifference.zero, beq_iff_eq]
  · rw [negative_compare, hdifference.negative, Width.testBit_sign, Width.testBit_sign, ← hresult,
      Width.truncate_truncate]

end Compare

theorem binary_exact (width : Width) (a b : UInt16) (p : Status) :
    (p.has .decimal = false →
      BinaryOutcome width p
          ((width.truncate a).toNat + (width.truncate b).toNat + (p.has .carry).toNat)
          (2 ^ width.bits ≤
            (width.truncate a).toNat + (width.truncate b).toNat + (p.has .carry).toNat)
          (width.signed a + width.signed b + (p.has .carry).toNat)
          (addWithCarry width a b p) ∧
        BinaryOutcome width p
          ((width.truncate a).toNat - (width.truncate b).toNat - (1 - (p.has .carry).toNat))
          ((width.truncate b).toNat + (1 - (p.has .carry).toNat) ≤ (width.truncate a).toNat)
          (width.signed a - width.signed b - (1 - (p.has .carry).toNat))
          (subtractWithBorrow width a b p)) ∧
      (∀ q : Status, q.has .decimal = false → q.has .carry = true →
        ∀ flag ∈ [.carry, .zero, .negative],
          (compare width a b p).has flag = (subtractWithBorrow width a b q).2.has flag) ∧
      ∀ flag, flag ∉ [.carry, .zero, .negative] → (compare width a b p).has flag = p.has flag :=
  ⟨fun hbinary => ⟨addWithCarry_binary hbinary, subtractWithBorrow_binary hbinary⟩,
    fun _ hbinary hcarry _ hflag => compare_eq_subtract width a b p hbinary hcarry hflag,
    fun _ hflag => has_compare_of_ne width a b p hflag⟩

-- The carry alone takes the largest signed number out of range. Decimal mode does not matter to a
-- comparison.
theorem binary_exact_largest :
    (addWithCarry .word 0x7FFF 0x0000 ⟨0x01⟩).1.toNat = 0x8000 ∧
      (addWithCarry .word 0x7FFF 0x0000 ⟨0x01⟩).2.has .overflow = true ∧
      (subtractWithBorrow .byte 0x1200 0xFF80 ⟨0x01⟩).2.has .overflow = true ∧
      (compare .byte 0x1200 0xFF80 ⟨0x48⟩).has .negative =
        (subtractWithBorrow .byte 0x1200 0xFF80 ⟨0x01⟩).2.has .negative ∧
      (compare .byte 0x1200 0xFF80 ⟨0x48⟩).has .overflow = true := by
  obtain ⟨hsum, -⟩ := (binary_exact .word 0x7FFF 0x0000 ⟨0x01⟩).1 (by decide)
  obtain ⟨-, hdifference⟩ := (binary_exact .byte 0x1200 0xFF80 ⟨0x01⟩).1 (by decide)
  obtain ⟨-, hsame, hkept⟩ := binary_exact .byte 0x1200 0xFF80 ⟨0x48⟩
  refine ⟨Int.natCast_inj.mp hsum.value, hsum.overflow.mpr (by decide),
    hdifference.overflow.mpr (by decide), hsame ⟨0x01⟩ (by decide) (by decide) _ (by decide), ?_⟩
  exact (hkept .overflow (by decide)).trans (by decide)

end Arithmetic

end Console816
