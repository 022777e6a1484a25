import Console816.Json.Printer
import Console816.Json.Token
import Mathlib.Data.List.TakeWhile

namespace Console816.Json

open Token

-- The digits of a number, the highest first.
def decimal (n : Nat) : List UInt8 :=
  if n < 10 then [(0x30 + n).toUInt8] else decimal (n / 10) ++ [(0x30 + n % 10).toUInt8]

theorem writeDecimal_eq (n : Nat) (out : ByteArray) :
    writeDecimal n out = writeBytes (decimal n) out := by
  fun_induction decimal n with
  | case1 n hn =>
      rw [writeDecimal, if_pos hn]
      rfl
  | case2 n hn ih =>
      rw [writeDecimal, if_neg hn, ih]
      simp [writeBytes]

section Digit

variable {digit : Nat} (hdigit : digit < 10)
include hdigit

theorem isDigit_of_lt : isDigit (0x30 + digit).toUInt8 := by
  decide +revert

theorem toNat_digit : (0x30 + digit).toUInt8.toNat - 0x30 = digit := by
  decide +revert

theorem digit_ne_zero (hne : digit ≠ 0) : (0x30 + digit).toUInt8 ≠ 0x30 := by
  decide +revert

end Digit

theorem decimal_ne_nil (n : Nat) : decimal n ≠ [] := by
  rw [decimal]
  split <;> simp

theorem isDigit_of_mem_decimal {n : Nat} : ∀ byte ∈ decimal n, isDigit byte := by
  fun_induction decimal n with
  | case1 n hn =>
      intro byte hbyte
      rw [List.mem_singleton.mp hbyte]
      exact isDigit_of_lt hn
  | case2 n hn ih =>
      intro byte hbyte
      rcases List.mem_append.mp hbyte with hbyte | hbyte
      · exact ih byte hbyte
      · rw [List.mem_singleton.mp hbyte]
        exact isDigit_of_lt (Nat.mod_lt n (by decide))

theorem decimalValue_decimal (n : Nat) : decimalValue (decimal n) = n := by
  fun_induction decimal n with
  | case1 n hn => simpa [decimalValue] using toNat_digit hn
  | case2 n hn ih =>
      have hlow := toNat_digit (Nat.mod_lt n (y := 10) (by decide))
      simp only [decimalValue, List.foldl_append, List.foldl_cons, List.foldl_nil] at ih ⊢
      rw [ih, hlow]
      omega

-- Only zero itself begins with a zero.
theorem head?_decimal {n : Nat} (hne : n ≠ 0) : (decimal n).head? ≠ some 0x30 := by
  fun_induction decimal n with
  | case1 n hn => simpa using digit_ne_zero hn hne
  | case2 n hn ih =>
      obtain ⟨first, rest, hcons⟩ := List.exists_cons_of_ne_nil (decimal_ne_nil (n / 10))
      have hfirst := ih (by omega)
      rw [hcons] at hfirst ⊢
      exact hfirst

theorem isWhole_decimal (n : Nat) : isWhole (decimal n) := by
  have hdigits : isDigits (decimal n) := by
    simp only [isDigits, Bool.and_eq_true, Bool.not_eq_true', List.isEmpty_eq_false_iff,
      List.all_eq_true]
    exact ⟨decimal_ne_nil n, isDigit_of_mem_decimal⟩
  simp only [isWhole, hdigits, Bool.true_and, Bool.or_eq_true, bne_iff_ne, beq_iff_eq]
  by_cases hn : n = 0
  · exact .inr (by rw [hn, decimal]; rfl)
  · exact .inl (head?_decimal hn)

-- An integer as it is written.
def integerText (negative : Bool) (magnitude : Nat) : List UInt8 :=
  (if negative then [0x2D] else []) ++ decimal magnitude

theorem mem_integerText {negative : Bool} {magnitude : Nat} :
    ∀ byte ∈ integerText negative magnitude, byte = 0x2D ∨ isDigit byte := by
  intro byte hbyte
  rcases List.mem_append.mp hbyte with hsign | hdigit
  · cases negative with
    | true => exact .inl (List.mem_singleton.mp hsign)
    | false => exact absurd hsign List.not_mem_nil
  · exact .inr (isDigit_of_mem_decimal byte hdigit)

theorem isBoundary_of_isDigit {byte : UInt8} (hdigit : isDigit byte) : isBoundary byte = false := by
  rw [Bool.eq_false_iff]
  intro hboundary
  simp only [isBoundary, isBlank, Bool.or_eq_true, beq_iff_eq] at hboundary
  rcases hboundary with ((((rfl | rfl) | rfl) | rfl) | rfl) | hpunctuation
  case inr =>
    unfold punctuation? at hpunctuation
    split at hpunctuation <;> first | exact absurd hdigit (by decide) | cases hpunctuation
  all_goals exact absurd hdigit (by decide)

theorem isBoundary_of_mem_integerText {negative : Bool} {magnitude : Nat} :
    ∀ byte ∈ integerText negative magnitude, isBoundary byte = false := by
  intro byte hbyte
  rcases mem_integerText byte hbyte with rfl | hdigit
  · rfl
  · exact isBoundary_of_isDigit hdigit

theorem number?_integerText (negative : Bool) (magnitude : Nat) :
    number? (integerText negative magnitude) = some (integer negative magnitude) := by
  have hwhole : (decimal magnitude).takeWhile isDigit = decimal magnitude :=
    List.takeWhile_eq_self_iff.mpr isDigit_of_mem_decimal
  have hrest : (decimal magnitude).dropWhile isDigit = [] :=
    List.dropWhile_eq_nil_iff.mpr isDigit_of_mem_decimal
  have hfraction : isFraction [] = true := rfl
  unfold number? integerText
  cases negative with
  | true => simp [hwhole, hrest, isWhole_decimal, hfraction, decimalValue_decimal]
  | false =>
      have hsign : (decimal magnitude).head? ≠ some 0x2D := fun hhead =>
        absurd (isDigit_of_mem_decimal _ (List.mem_of_head? hhead)) (by decide)
      simp [hwhole, hrest, isWhole_decimal, hfraction, hsign, decimalValue_decimal]

theorem bare?_integerText (negative : Bool) (magnitude : Nat) :
    bare? (integerText negative magnitude) = some (integer negative magnitude) := by
  -- no word begins like a number
  have hword {first : UInt8} {rest : List UInt8} (hfirst : ¬(first = 0x2D ∨ isDigit first)) :
      integerText negative magnitude ≠ first :: rest := by
    intro heq
    exact hfirst (mem_integerText first (heq ▸ List.mem_cons_self))
  unfold bare?
  rw [if_neg (hword (by decide)), if_neg (hword (by decide)), if_neg (hword (by decide))]
  exact number?_integerText negative magnitude

end Console816.Json
