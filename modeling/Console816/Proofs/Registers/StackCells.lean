import Console816.Proofs.Registers.Widths

namespace Console816

namespace Stack

-- S after so many more bytes have been pushed. It wraps inside page 1 in emulation mode, and
-- inside the whole bank in native mode.
def below (emulation : Bool) (s : UInt16) (count : Nat) : UInt16 :=
  if emulation then 0x0100 ||| ((s - count.toUInt16) &&& 0xFF) else s - count.toUInt16

-- How many bytes can be pushed before the first of them is overwritten.
def size (emulation : Bool) : Nat := if emulation then 0x100 else 0x10000

-- In emulation mode S is in page 1.
def PageHolds (emulation : Bool) (s : UInt16) : Prop := emulation = true → Word.high s = 0x01

theorem toNat_sub_count (s : UInt16) (count : Nat) :
    (s - count.toUInt16).toNat = (0x10000 - count % 0x10000 + s.toNat) % 0x10000 := by
  rw [UInt16.toNat_sub]
  rfl

theorem toNat_below_native (s : UInt16) (count : Nat) :
    (below false s count).toNat = (0x10000 - count % 0x10000 + s.toNat) % 0x10000 :=
  toNat_sub_count s count

theorem toNat_below_emulation (s : UInt16) (count : Nat) :
    (below true s count).toNat =
      0x100 + (0x10000 - count % 0x10000 + s.toNat) % 0x10000 % 0x100 := by
  rw [← toNat_sub_count]
  exact Word.toNat_pageOne _

theorem below_zero {emulation : Bool} {s : UInt16} (hpage : PageHolds emulation s) :
    below emulation s 0 = s := by
  apply UInt16.toNat_inj.mp
  have hs := s.toNat_lt
  cases emulation with
  | false =>
      rw [toNat_below_native]
      omega
  | true =>
      have hhigh : s.toNat / 0x100 = 1 := by rw [← Word.toNat_high, hpage rfl]; rfl
      rw [toNat_below_emulation]
      omega

theorem below_below (emulation : Bool) (s : UInt16) (count more : Nat) :
    below emulation (below emulation s count) more = below emulation s (count + more) := by
  apply UInt16.toNat_inj.mp
  have hs := s.toNat_lt
  cases emulation with
  | false =>
      rw [toNat_below_native, toNat_below_native, toNat_below_native]
      omega
  | true =>
      rw [toNat_below_emulation, toNat_below_emulation, toNat_below_emulation]
      omega

theorem pageHolds_below (emulation : Bool) (s : UInt16) (count : Nat) :
    PageHolds emulation (below emulation s count) := by
  intro hem
  rw [below, if_pos hem]
  exact Word.high_pageOne _

-- The cells of the stack differ for as long as there is room on it.
theorem below_injective {emulation : Bool} {s : UInt16} {count other : Nat}
    (hcount : count < size emulation) (hother : other < size emulation)
    (hsame : below emulation s count = below emulation s other) : count = other := by
  have hnat := congrArg UInt16.toNat hsame
  have hs := s.toNat_lt
  cases emulation with
  | false =>
      simp only [size, Bool.false_eq_true, if_false] at hcount hother
      rw [toNat_below_native, toNat_below_native] at hnat
      omega
  | true =>
      simp only [size, if_true] at hcount hother
      rw [toNat_below_emulation, toNat_below_emulation] at hnat
      omega

-- The cell for the next byte, when `count` of them have been pushed.
def cell (emulation : Bool) (s : UInt16) (count : Nat) : Address := ⟨0, below emulation s count⟩

theorem cell_below (emulation : Bool) (s : UInt16) (count more : Nat) :
    cell emulation (below emulation s count) more = cell emulation s (count + more) := by
  rw [cell, below_below, cell]

-- The cells of so many bytes, and those of more of them that have been pushed after these.
theorem exists_cell_add {emulation : Bool} {s : UInt16} {count more : Nat} {address : Address} :
    ((∃ i < count, address = cell emulation s i) ∨
        ∃ i < more, address = cell emulation (below emulation s count) i) ↔
      ∃ i < count + more, address = cell emulation s i := by
  simp only [cell_below]
  constructor
  · rintro (⟨i, hi, rfl⟩ | ⟨i, hi, rfl⟩)
    · exact ⟨i, by omega, rfl⟩
    · exact ⟨count + i, by omega, rfl⟩
  · rintro ⟨i, hi, rfl⟩
    by_cases hfirst : i < count
    · exact .inl ⟨i, hfirst, rfl⟩
    · exact .inr ⟨i - count, by omega, by rw [Nat.add_sub_of_le (Nat.le_of_not_lt hfirst)]⟩

theorem exists_cell_max {emulation : Bool} {s : UInt16} {count other : Nat} {address : Address} :
    ((∃ i < count, address = cell emulation s i) ∨ ∃ i < other, address = cell emulation s i) ↔
      ∃ i < max count other, address = cell emulation s i := by
  constructor
  · rintro (⟨i, hi, rfl⟩ | ⟨i, hi, rfl⟩)
    · exact ⟨i, Nat.lt_of_lt_of_le hi (Nat.le_max_left _ _), rfl⟩
    · exact ⟨i, Nat.lt_of_lt_of_le hi (Nat.le_max_right _ _), rfl⟩
  · rintro ⟨i, hi, rfl⟩
    by_cases hfirst : i < count
    · exact .inl ⟨i, hfirst, rfl⟩
    · exact .inr ⟨i, by omega, rfl⟩

theorem cell_ne {emulation : Bool} {s : UInt16} {count other : Nat}
    (hcount : count < size emulation) (hother : other < size emulation) (hne : count ≠ other) :
    cell emulation s count ≠ cell emulation s other :=
  fun hsame => hne (below_injective hcount hother (congrArg Address.offset hsame))

end Stack

namespace Registers

theorem stackDown_below (r : Registers) (s : UInt16) (count : Nat)
    (hs : r.s = Stack.below r.emulation s count) :
    r.stackDown = { r with s := Stack.below r.emulation s (count + 1) } := by
  rw [← Stack.below_below, ← hs]
  rfl

theorem stackUp_below (r : Registers) (s : UInt16) (count : Nat)
    (hs : r.s = Stack.below r.emulation s (count + 1)) :
    r.stackUp = { r with s := Stack.below r.emulation s count } := by
  have hup : (if r.emulation = true then 0x0100 ||| ((r.s + 1) &&& 0xFF) else r.s + 1) =
      Stack.below r.emulation s count := by
    apply UInt16.toNat_inj.mp
    have hlt := s.toNat_lt
    rw [hs]
    cases r.emulation with
    | false =>
        simp only [Bool.false_eq_true, if_false]
        rw [UInt16.toNat_add, Stack.toNat_below_native, Stack.toNat_below_native]
        simp only [UInt16.reduceToNat]
        omega
    | true =>
        simp only [if_true]
        rw [Word.toNat_pageOne, UInt16.toNat_add, Stack.toNat_below_emulation,
          Stack.toNat_below_emulation]
        simp only [UInt16.reduceToNat]
        omega
  simp only [stackUp, hup]

end Registers

end Console816
