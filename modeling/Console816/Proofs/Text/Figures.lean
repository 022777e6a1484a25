import Console816.Proofs.Word
import Console816.Text.Radix
import Mathlib.Algebra.Group.Nat.Defs

namespace Console816.Text

-- The digits up to F.
def isFigure (c : Char) : Bool := c.isDigit || ('A' ≤ c && c ≤ 'F')

theorem isFigure_digit : ∀ n < 16, isFigure (digit n) = true := by decide

theorem digit_inj : ∀ m < 16, ∀ n < 16, digit m = digit n → m = n := by decide

theorem isFigure_of_mem_digits {count n : Nat} {c : Char} (hmem : c ∈ digits 16 count n) :
    isFigure c = true := by
  induction count generalizing n with
  | zero => cases hmem
  | succ count ih =>
      rcases List.mem_append.mp hmem with hupper | hlowest
      · exact ih hupper
      · rw [List.mem_singleton.mp hlowest]
        exact isFigure_digit _ (Nat.mod_lt _ (by decide))

theorem digits_inj {count m n : Nat} (hm : m < 16 ^ count) (hn : n < 16 ^ count)
    (hsame : digits 16 count m = digits 16 count n) : m = n := by
  induction count generalizing m n with
  | zero => omega
  | succ count ih =>
      obtain ⟨hupper, hlowest⟩ := List.append_inj' hsame rfl
      have hlow := digit_inj _ (Nat.mod_lt m (by decide)) _ (Nat.mod_lt n (by decide))
        (List.singleton_inj.mp hlowest)
      have hhigh : m / 16 = n / 16 := ih (by omega) (by omega) hupper
      omega

-- The upper digits are those of the quotient, and the lower digits those of the remainder.
theorem digits_add (upper lower n : Nat) :
    digits 16 (upper + lower) n =
      digits 16 upper (n / 16 ^ lower) ++ digits 16 lower (n % 16 ^ lower) := by
  induction lower generalizing n with
  | zero => simp [digits]
  | succ lower ih =>
      have hupper : n / 16 / 16 ^ lower = n / 16 ^ (lower + 1) := by
        rw [Nat.div_div_eq_div_mul, Nat.pow_succ, Nat.mul_comm]
      have hmiddle : n / 16 % 16 ^ lower = n % 16 ^ (lower + 1) / 16 := by
        rw [Nat.pow_succ, Nat.mul_comm, Nat.mod_mul_right_div_self]
      have hlowest : n % 16 ^ (lower + 1) % 16 = n % 16 :=
        Nat.mod_mod_of_dvd n ⟨16 ^ lower, Nat.pow_succ'⟩
      rw [← Nat.add_assoc, digits, digits, ih, hupper, hmiddle, hlowest, List.append_assoc]

theorem hexLength_le {n : Nat} (count : Nat) (hn : n < 16 ^ (count + 1)) :
    hexLength n ≤ count + 1 := by
  induction count generalizing n with
  | zero =>
      have hlt : n < 16 := hn
      have hone : hexLength n = 1 := by rw [hexLength, if_pos hlt]
      exact Nat.le_of_eq hone
  | succ count ih =>
      rw [hexLength]
      split
      · omega
      · have hupper := ih (n := n / 16) (by omega)
        omega

-- A number that fits has just the digits that it is given room for.
theorem toList_hex (count : Nat) {n : Nat} (hn : n < 16 ^ (count + 1)) :
    (hex (count + 1) n).toList = digits 16 (count + 1) n := by
  rw [hex, Nat.max_eq_left (hexLength_le count hn), String.toList_ofList]

-- The figures of a byte, and of little-endian bytes, which are written the highest first.

def byteFigures (value : UInt8) : List Char := digits 16 2 value.toNat

def hexFigures (bytes : List UInt8) : List Char := bytes.reverse.flatMap byteFigures

theorem byteFigures_inj {first second : UInt8} (hsame : byteFigures first = byteFigures second) :
    first = second :=
  UInt8.toNat_inj.mp (digits_inj first.toNat_lt second.toNat_lt hsame)

theorem hexFigures_cons (value : UInt8) (bytes : List UInt8) :
    hexFigures (value :: bytes) = hexFigures bytes ++ byteFigures value := by
  simp [hexFigures]

theorem length_hexFigures (bytes : List UInt8) : (hexFigures bytes).length = 2 * bytes.length := by
  induction bytes with
  | nil => rfl
  | cons value rest ih =>
      have hbyte : (byteFigures value).length = 2 := rfl
      rw [hexFigures_cons, List.length_append, ih, hbyte, List.length_cons]
      omega

theorem hexFigures_inj {first second : List UInt8} (hsame : hexFigures first = hexFigures second) :
    first = second := by
  have hlength : first.length = second.length := by
    have hboth := congrArg List.length hsame
    rw [length_hexFigures, length_hexFigures] at hboth
    omega
  induction first generalizing second with
  | nil => exact (List.eq_nil_of_length_eq_zero hlength.symm).symm
  | cons byte rest ih =>
      cases second with
      | nil => cases hlength
      | cons other later =>
          rw [hexFigures_cons, hexFigures_cons] at hsame
          obtain ⟨hrest, hbyte⟩ := List.append_inj' hsame rfl
          rw [ih hrest (Nat.succ.inj hlength), byteFigures_inj hbyte]

-- What a text is made of: its figures, and the marks that are left without them.
structure Spelled (text : String) (figures marks : List Char) : Prop where
  figures : text.toList.filter isFigure = figures
  marks : text.toList.filter (!isFigure ·) = marks

namespace Spelled

theorem append {first second : String} {figures figures' marks marks' : List Char}
    (hfirst : Spelled first figures marks) (hsecond : Spelled second figures' marks') :
    Spelled (first ++ second) (figures ++ figures') (marks ++ marks') where
  figures := by rw [String.toList_append, List.filter_append, hfirst.figures, hsecond.figures]
  marks := by rw [String.toList_append, List.filter_append, hfirst.marks, hsecond.marks]

theorem of_marks {text : String} (hfigures : text.toList.filter isFigure = []) :
    Spelled text [] text.toList where
  figures := hfigures
  marks := List.filter_eq_self.mpr fun c hmem => by
    simp [List.filter_eq_nil_iff.mp hfigures c hmem]

theorem hex (count : Nat) {n : Nat} (hn : n < 16 ^ (count + 1)) :
    Spelled (hex (count + 1) n) (digits 16 (count + 1) n) [] := by
  have hfigures : ∀ c ∈ digits 16 (count + 1) n, isFigure c = true :=
    fun _ => isFigure_of_mem_digits
  constructor
  · rw [toList_hex count hn, List.filter_eq_self.mpr hfigures]
  · rw [toList_hex count hn, List.filter_eq_nil_iff]
    exact fun c hmem => by simp [hfigures c hmem]

theorem byte (value : UInt8) : Spelled (hexByte value) (hexFigures [value]) [] := by
  have hfigures : hexFigures [value] = digits 16 2 value.toNat := List.append_nil _
  rw [hfigures]
  exact hex 1 value.toNat_lt

theorem word (value : UInt16) :
    Spelled (hexWord value) (hexFigures [Word.low value, Word.high value]) [] := by
  have hfigures : hexFigures [Word.low value, Word.high value] = digits 16 4 value.toNat := by
    rw [hexFigures_cons, byteFigures, Word.toNat_low]
    have hupper : hexFigures [Word.high value] = digits 16 2 (value.toNat / 0x100) := by
      rw [← Word.toNat_high]
      exact List.append_nil _
    rw [hupper]
    exact (digits_add 2 2 value.toNat).symm
  rw [hfigures]
  exact hex 3 value.toNat_lt

end Spelled

-- A distance is a sign with decimal digits.

theorem toList_signed (n : Int) :
    (signed n).toList = (if n < 0 then '-' else '+') :: Nat.toDigits 10 n.natAbs := by
  cases n with
  | ofNat n =>
      have hpositive : ¬Int.ofNat n < 0 := Int.not_lt.mpr (Int.natCast_nonneg n)
      rw [signed, if_neg hpositive, if_neg hpositive]
      simp [Int.toString_eq_repr, Int.repr]
  | negSucc n => simp [signed, Int.toString_eq_repr, Int.repr]

theorem signed_inj {m n : Int} (hsame : signed m = signed n) : m = n := by
  have hlist := congrArg String.toList hsame
  rw [toList_signed, toList_signed] at hlist
  obtain ⟨hsign, hdigits⟩ := List.cons.inj hlist
  have habs : m.natAbs = n.natAbs := by
    rw [← Nat.ofDigitChars_ten_toDigits (n := m.natAbs), hdigits, Nat.ofDigitChars_ten_toDigits]
  split at hsign <;> split at hsign
  · omega
  · exact absurd hsign (by decide)
  · exact absurd hsign (by decide)
  · omega

theorem marks_signed (n : Int) :
    (signed n).toList.filter (!isFigure ·) = [if n < 0 then '-' else '+'] := by
  have hdigits : (Nat.toDigits 10 n.natAbs).filter (!isFigure ·) = [] := by
    rw [List.filter_eq_nil_iff]
    intro c hmem
    simp [isFigure, Nat.isDigit_of_mem_toDigits (by decide) (by decide) hmem]
  have hsign : isFigure (if n < 0 then '-' else '+') = false := by
    split <;> decide
  rw [toList_signed, List.filter_cons_of_pos (by simp [hsign]), hdigits]

end Console816.Text
