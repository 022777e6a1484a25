import Console816.Text.Utf8

namespace Console816.Text

section Decode

variable {value missing : Nat} {low high byte : UInt8} {rest : List UInt8}

-- A byte that is no continuation begins a character, and a continuation adds six bits to it.

theorem decodeUtf8From_ascii (hbyte : byte < 0x80) :
    decodeUtf8From 0 0 0 0 (byte :: rest) =
      Char.ofNat byte.toNat :: decodeUtf8From 0 0 0 0 rest := by
  simp [decodeUtf8From, hbyte]

theorem decodeUtf8From_lead {count : Nat} (hbyte : ¬byte < 0x80)
    (hlead : utf8Lead? byte = some (count, low, high)) :
    decodeUtf8From 0 0 0 0 (byte :: rest) =
      decodeUtf8From (byte.toNat % (0x40 >>> count)) count low high rest := by
  simp [decodeUtf8From, hbyte, hlead]

section Continuation

variable (hlow : low ≤ byte) (hhigh : byte ≤ high)
include hlow hhigh

theorem decodeUtf8From_next :
    decodeUtf8From value (missing + 2) low high (byte :: rest) =
      decodeUtf8From (value * 0x40 + byte.toNat % 0x40) (missing + 1) 0x80 0xBF rest := by
  simp [decodeUtf8From, UInt8.not_lt.mpr hlow, UInt8.not_lt.mpr hhigh]

theorem decodeUtf8From_last :
    decodeUtf8From value 1 low high (byte :: rest) =
      Char.ofNat (value * 0x40 + byte.toNat % 0x40) :: decodeUtf8From 0 0 0 0 rest := by
  simp [decodeUtf8From, UInt8.not_lt.mpr hlow, UInt8.not_lt.mpr hhigh]

end Continuation

end Decode

-- The first byte of a character has its highest bits, and bounds the second byte where overlong
-- characters, surrogates and numbers past the last character begin like it.

theorem utf8Lead?_two :
    ∀ digit < 32, 2 ≤ digit → utf8Lead? (.ofNat (digit + 192)) = some (1, 0x80, 0xBF) := by
  decide

theorem utf8Lead?_three :
    ∀ digit < 16, utf8Lead? (.ofNat (digit + 224)) =
      some (2, if digit = 0 then 0xA0 else 0x80, if digit = 13 then 0x9F else 0xBF) := by
  decide

theorem utf8Lead?_four :
    ∀ digit < 5, utf8Lead? (.ofNat (digit + 240)) =
      some (3, if digit = 0 then 0x90 else 0x80, if digit = 4 then 0x8F else 0xBF) := by
  decide

-- Six bits of a number follow as a byte of their own.

def continuation (n : Nat) : UInt8 := .ofNat (n % 64 + 128)

theorem toNat_continuation (n : Nat) : (continuation n).toNat = n % 64 + 128 :=
  UInt8.toNat_ofNat_of_lt' (by change _ < 256; omega)

theorem le_continuation_iff {bound : UInt8} {n : Nat} :
    bound ≤ continuation n ↔ bound.toNat ≤ n % 64 + 128 := by
  rw [UInt8.le_iff_toNat_le, toNat_continuation]

theorem continuation_le_iff {bound : UInt8} {n : Nat} :
    continuation n ≤ bound ↔ n % 64 + 128 ≤ bound.toNat := by
  rw [UInt8.le_iff_toNat_le, toNat_continuation]

theorem le_continuation (n : Nat) : 0x80 ≤ continuation n :=
  le_continuation_iff.mpr (Nat.le_add_left ..)

theorem continuation_le (n : Nat) : continuation n ≤ 0xBF := by
  rw [continuation_le_iff]
  exact Nat.add_le_add_right (Nat.le_of_lt_succ (Nat.mod_lt n (by decide))) 128

theorem not_lead_lt {digit first : Nat} (hlt : digit + first < 256) (hfirst : 0x80 ≤ first) :
    ¬UInt8.ofNat (digit + first) < 0x80 := by
  rw [UInt8.not_lt, UInt8.le_iff_toNat_le, UInt8.toNat_ofNat_of_lt' hlt]
  exact Nat.le_add_left_of_le hfirst

section Number

variable {n : Nat} (rest : List UInt8)

theorem decodeUtf8From_two (hleast : 0x80 ≤ n) (hmost : n ≤ 0x7FF) :
    decodeUtf8From 0 0 0 0 (.ofNat (n / 64 % 32 + 192) :: continuation n :: rest) =
      Char.ofNat n :: decodeUtf8From 0 0 0 0 rest := by
  have hdigit : n / 64 % 32 = n / 64 := Nat.mod_eq_of_lt (by omega)
  have hlead := utf8Lead?_two (n / 64) (by omega) (by omega)
  have hlt : n / 64 + 192 < 256 := by omega
  rw [hdigit, decodeUtf8From_lead (not_lead_lt hlt (by decide)) hlead,
    decodeUtf8From_last (le_continuation n) (continuation_le n), toNat_continuation,
    UInt8.toNat_ofNat_of_lt' hlt]
  congr 2
  simp only [Nat.reduceShiftRight]
  omega

theorem decodeUtf8From_three (hleast : 0x800 ≤ n) (hmost : n ≤ 0xFFFF)
    (hsurrogate : n < 0xD800 ∨ 0xDFFF < n) :
    decodeUtf8From 0 0 0 0
        (.ofNat (n / 4096 % 16 + 224) :: continuation (n / 64) :: continuation n :: rest) =
      Char.ofNat n :: decodeUtf8From 0 0 0 0 rest := by
  have hdigit : n / 4096 % 16 = n / 4096 := Nat.mod_eq_of_lt (by omega)
  have hlead := utf8Lead?_three (n / 4096) (by omega)
  have hlt : n / 4096 + 224 < 256 := by omega
  have hlow : (if n / 4096 = 0 then 0xA0 else 0x80) ≤ continuation (n / 64) := by
    rw [le_continuation_iff]
    split <;> simp only [UInt8.reduceToNat] <;> omega
  have hhigh : continuation (n / 64) ≤ (if n / 4096 = 13 then 0x9F else 0xBF) := by
    rw [continuation_le_iff]
    split <;> simp only [UInt8.reduceToNat] <;> omega
  rw [hdigit, decodeUtf8From_lead (not_lead_lt hlt (by decide)) hlead,
    decodeUtf8From_next hlow hhigh, decodeUtf8From_last (le_continuation n) (continuation_le n),
    toNat_continuation, toNat_continuation, UInt8.toNat_ofNat_of_lt' hlt]
  congr 2
  simp only [Nat.reduceShiftRight]
  omega

theorem decodeUtf8From_four (hleast : 0x10000 ≤ n) (hmost : n < 0x110000) :
    decodeUtf8From 0 0 0 0
        (.ofNat (n / 262144 % 8 + 240) :: continuation (n / 4096) :: continuation (n / 64) ::
          continuation n :: rest) =
      Char.ofNat n :: decodeUtf8From 0 0 0 0 rest := by
  have hdigit : n / 262144 % 8 = n / 262144 := Nat.mod_eq_of_lt (by omega)
  have hlead := utf8Lead?_four (n / 262144) (by omega)
  have hlt : n / 262144 + 240 < 256 := by omega
  have hlow : (if n / 262144 = 0 then 0x90 else 0x80) ≤ continuation (n / 4096) := by
    rw [le_continuation_iff]
    split <;> simp only [UInt8.reduceToNat] <;> omega
  have hhigh : continuation (n / 4096) ≤ (if n / 262144 = 4 then 0x8F else 0xBF) := by
    rw [continuation_le_iff]
    split <;> simp only [UInt8.reduceToNat] <;> omega
  rw [hdigit, decodeUtf8From_lead (not_lead_lt hlt (by decide)) hlead,
    decodeUtf8From_next hlow hhigh, decodeUtf8From_next (le_continuation _) (continuation_le _),
    decodeUtf8From_last (le_continuation n) (continuation_le n), toNat_continuation,
    toNat_continuation, toNat_continuation, UInt8.toNat_ofNat_of_lt' hlt]
  congr 2
  simp only [Nat.reduceShiftRight]
  omega

end Number

theorem utf8EncodeChar_eq (c : Char) :
    String.utf8EncodeChar c =
      if c.toNat ≤ 0x7F then [.ofNat c.toNat]
      else if c.toNat ≤ 0x7FF then [.ofNat (c.toNat / 64 % 32 + 192), continuation c.toNat]
      else if c.toNat ≤ 0xFFFF then
        [.ofNat (c.toNat / 4096 % 16 + 224), continuation (c.toNat / 64), continuation c.toNat]
      else
        [.ofNat (c.toNat / 262144 % 8 + 240), continuation (c.toNat / 4096),
          continuation (c.toNat / 64), continuation c.toNat] :=
  rfl

theorem decodeUtf8From_char (c : Char) (rest : List UInt8) :
    decodeUtf8From 0 0 0 0 (String.utf8EncodeChar c ++ rest) =
      c :: decodeUtf8From 0 0 0 0 rest := by
  have hvalid : c.toNat < 0xD800 ∨ 0xDFFF < c.toNat ∧ c.toNat < 0x110000 := c.valid
  conv => rhs; rw [← c.ofNat_toNat]
  rw [utf8EncodeChar_eq]
  split
  · rename_i hone
    have hbyte : (UInt8.ofNat c.toNat).toNat = c.toNat :=
      UInt8.toNat_ofNat_of_lt' (Nat.lt_of_le_of_lt hone (by decide))
    have hascii : UInt8.ofNat c.toNat < 0x80 := by
      rw [UInt8.lt_iff_toNat_lt, hbyte]
      exact Nat.lt_succ_of_le hone
    rw [List.singleton_append, decodeUtf8From_ascii hascii, hbyte]
  split
  · exact decodeUtf8From_two rest (by omega) (by omega)
  split
  · exact decodeUtf8From_three rest (by omega) (by omega) (by omega)
  · exact decodeUtf8From_four rest (by omega) (by omega)

-- A text is what its UTF-8 is decoded to.
theorem decodeUtf8_flatMap (text : List Char) :
    decodeUtf8 (text.flatMap String.utf8EncodeChar) = text := by
  induction text with
  | nil => rfl
  | cons c text ih => exact (decodeUtf8From_char c _).trans (congrArg (c :: ·) ih)

-- Blanks are taken off the end alone.
theorem trimEnd_append {text blanks : List Char} (hblanks : ∀ c ∈ blanks, isBlank c = true)
    (htext : ∀ c ∈ text.getLast?, isBlank c = false) : trimEnd (text ++ blanks) = text := by
  have hkept : text.reverse.dropWhile isBlank = text.reverse := by
    cases hreverse : text.reverse with
    | nil => rfl
    | cons c rest =>
        have hlast : isBlank c = false := htext c (by simp [← List.head?_reverse, hreverse])
        exact List.dropWhile_cons_of_neg (by simp [hlast])
  rw [trimEnd, List.reverse_append,
    List.dropWhile_append_of_pos fun c hc => hblanks c (List.mem_reverse.mp hc), hkept,
    List.reverse_reverse]

end Console816.Text
