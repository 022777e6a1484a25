import Console816.Json.Quoted

namespace Console816.Json

theorem hexValue?_hexByte {n : Nat} (hn : n < 16) : hexValue? (hexByte n) = some n := by
  decide +revert

theorem scalarBytes_of_lt {n : Nat} (hn : n < 0x20) : scalarBytes n = [n.toUInt8] := by
  decide +revert

theorem codeUnit?_hexByte {n : Nat} (hn : n < 0x20) :
    codeUnit? 0x30 0x30 (hexByte (n / 16)) (hexByte (n % 16)) = some n := by
  decide +revert

-- A byte that is not a backslash stands for itself.
theorem unescape_plain {byte : UInt8} (hplain : byte ≠ 0x5C) (rest : List UInt8) :
    unescape (byte :: rest) = (unescape rest).map (byte :: ·) := by
  rw [unescape]
  · rw [if_neg (by simpa using hplain)]
    cases unescape rest <;> rfl
  · exact fun _ _ _ _ _ heq => absurd heq hplain
  · exact fun _ _ heq => absurd heq hplain

-- The three ways in which a byte is escaped.
theorem escape_cases (byte : UInt8) :
    ((byte = 0x22 ∨ byte = 0x5C) ∧ escape [byte] = [0x5C, byte]) ∨
      (byte < 0x20 ∧ escape [byte] =
        [0x5C, 0x75, 0x30, 0x30, hexByte (byte.toNat / 16), hexByte (byte.toNat % 16)]) ∨
      (byte ≠ 0x22 ∧ byte ≠ 0x5C ∧ ¬byte < 0x20 ∧ escape [byte] = [byte]) := by
  by_cases hquote : byte = 0x22 ∨ byte = 0x5C
  · exact .inl ⟨hquote, by simp [escape, hquote]⟩
  obtain ⟨hquote, hslash⟩ := not_or.mp hquote
  by_cases hcontrol : byte < 0x20
  · exact .inr (.inl ⟨hcontrol, by simp [escape, hquote, hslash, hcontrol]⟩)
  · exact .inr (.inr ⟨hquote, hslash, hcontrol, by simp [escape, hquote, hslash, hcontrol]⟩)

theorem unescape_escape_byte (byte : UInt8) (rest : List UInt8) :
    unescape (escape [byte] ++ rest) = (unescape rest).map (byte :: ·) := by
  rcases escape_cases byte with ⟨hquote, hescape⟩ | ⟨hcontrol, hescape⟩ | ⟨-, hslash, -, hescape⟩
  · rw [hescape]
    rcases hquote with rfl | rfl <;> cases hrest : unescape rest <;>
      simp [unescape, escaped?, hrest]
  · have hn : byte.toNat < 0x20 := hcontrol
    have hunit := codeUnit?_hexByte hn
    have hscalar : scalarBytes byte.toNat = [byte] := by
      rw [scalarBytes_of_lt hn]
      simp
    have hlow : byte.toNat < 0xD800 := by omega
    simp only [hescape, List.cons_append, List.nil_append]
    rw [unescape]
    cases unescape rest <;> simp [hunit, hlow, hscalar]
  · rw [hescape]
    exact unescape_plain hslash rest

theorem escape_cons (byte : UInt8) (bytes : List UInt8) :
    escape (byte :: bytes) = escape [byte] ++ escape bytes := by
  simp [escape]

theorem unescape_escape (bytes : List UInt8) : unescape (escape bytes) = some bytes := by
  induction bytes with
  | nil => rfl
  | cons byte bytes ih => rw [escape_cons, unescape_escape_byte, ih, Option.map_some]

theorem decoded?_escape (text : String) :
    decoded? (escape text.toUTF8.data.toList) = some text := by
  simp only [decoded?, unescape_escape]
  simp [String.fromUTF8?, text.isValidUTF8]
  rfl

end Console816.Json
