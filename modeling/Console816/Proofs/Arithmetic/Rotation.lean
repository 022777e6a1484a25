import Console816.Proofs.Arithmetic.Digits

namespace Console816

namespace Width

-- The bits of a value, with C above them.
def ringBit (width : Width) (carry : Bool) (value : UInt16) (k : Nat) : Bool :=
  if k = width.bits then carry else value.toNat.testBit k

theorem ringBit_truncate {width : Width} {k : Nat} (hk : k ≤ width.bits) (carry : Bool)
    (value : UInt16) :
    width.ringBit carry (width.truncate value) k = width.ringBit carry value k := by
  unfold ringBit
  split
  · rfl
  · exact testBit_truncate (by omega) value

-- The ring tells the value and C.
theorem eq_of_ringBit {width : Width} {carry carry' : Bool} {value value' : UInt16}
    (hvalue : width.truncate value = value) (hvalue' : width.truncate value' = value')
    (hring : ∀ k ≤ width.bits, width.ringBit carry value k = width.ringBit carry' value' k) :
    carry = carry' ∧ value = value' := by
  refine ⟨?_, UInt16.toNat_inj.mp (Nat.eq_of_testBit_eq fun k => ?_)⟩
  · simpa [ringBit] using hring width.bits (Nat.le_refl _)
  · by_cases hk : k < width.bits
    · simpa [ringBit, Nat.ne_of_lt hk] using hring k (Nat.le_of_lt hk)
    · have hnone {word : UInt16} (hword : width.truncate word = word) :
          word.toNat.testBit k = false := by
        have hlt := width.toNat_truncate_lt word
        rw [hword] at hlt
        have hpow : 2 ^ width.bits ≤ 2 ^ k := Nat.pow_le_pow_right (by decide) (by omega)
        exact Nat.testBit_lt_two_pow (Nat.lt_of_lt_of_le hlt hpow)
      rw [hnone hvalue, hnone hvalue']

end Width

-- The shifts that move C in as well as out.
inductive Rotation where
  | left
  | right
  deriving DecidableEq

namespace Rotation

def shift : Rotation → Shift
  | left => .rotateLeft
  | right => .rotateRight

-- How far the ring is turned towards its lowest bit. Once to the left is almost all around.
def turn (width : Width) : Rotation → Nat
  | left => width.bits
  | right => 1

def turns (width : Width) (rotations : List Rotation) : Nat :=
  (rotations.map (turn width)).sum

variable {width : Width} {carry : Bool} {value : UInt16} {k : Nat}

theorem testBit_rotateLeft (hk : k < 16) :
    (Shift.rotateLeft.value width carry value).toNat.testBit k =
      if k = 0 then carry else value.toNat.testBit (k - 1) := by
  have hcarry : carry.toUInt16.toNat = carry.toNat := by cases carry <;> rfl
  have hshift : (value <<< 1).toNat = value.toNat <<< 1 % 2 ^ 16 := UInt16.toNat_shiftLeft ..
  rw [Shift.value, UInt16.toNat_or, hcarry, hshift, Nat.testBit_or, Nat.testBit_mod_two_pow,
    Nat.testBit_shiftLeft]
  cases k with
  | zero => cases carry <;> simp
  | succ k => cases carry <;> simp [hk, Nat.testBit_succ]

-- The bit that C is moved to has been cleared, unless there was more above the width.
theorem testBit_rotateRight (hvalue : width.truncate value = value) :
    (Shift.rotateRight.value width carry value).toNat.testBit k =
      if k = width.bits - 1 then carry else value.toNat.testBit (k + 1) := by
  have hsign : width.signBit.toNat = 2 ^ (width.bits - 1) := by cases width <;> rfl
  have hcarry : (if carry then width.signBit else 0).toNat.testBit k =
      (carry && decide (width.bits - 1 = k)) := by
    cases carry with
    | true => rw [if_pos rfl, hsign, Nat.testBit_two_pow, Bool.true_and]
    | false => simp
  have hshift : (value >>> 1).toNat = value.toNat >>> 1 := UInt16.toNat_shiftRight ..
  rw [Shift.value, UInt16.toNat_or, hshift, Nat.testBit_or, hcarry, Nat.testBit_shiftRight,
    Nat.add_comm 1 k]
  by_cases htop : k = width.bits - 1
  · have hlt := width.toNat_truncate_lt value
    rw [hvalue] at hlt
    have hbits : width.bits = k + 1 := by cases width <;> simp only [Width.bits] at htop ⊢ <;> omega
    rw [hbits] at hlt
    simp [htop.symm, Nat.testBit_lt_two_pow hlt]
  · simp [htop, Ne.symm htop]

theorem carryOut_rotateRight :
    Shift.rotateRight.carryOut width value = value.toNat.testBit 0 := by
  have hmasked : (value &&& 1).toNat = value.toNat % 2 := by
    rw [UInt16.toNat_and]
    exact Nat.and_one_is_mod _
  rw [Shift.carryOut, Bool.eq_iff_iff, bne_iff_ne, ne_eq, ← UInt16.toNat_inj, hmasked]
  simp [Nat.testBit_zero]

-- A rotate turns the ring by one bit.
theorem ringBit_rotate (rotation : Rotation) (hvalue : width.truncate value = value)
    (hk : k ≤ width.bits) :
    width.ringBit (rotation.shift.carryOut width value)
        (width.truncate (rotation.shift.value width carry value)) k =
      width.ringBit carry value ((k + rotation.turn width) % (width.bits + 1)) := by
  have hpos := width.bits_pos
  rw [Width.ringBit_truncate hk]
  unfold Width.ringBit
  cases rotation with
  | left =>
      have hcarry : Shift.rotateLeft.carryOut width value = value.toNat.testBit (width.bits - 1) :=
        width.and_signBit_ne_zero value
      cases k with
      | zero =>
          rw [shift, turn, Nat.zero_add, Nat.mod_eq_of_lt (Nat.lt_succ_self _), if_pos rfl,
            if_neg hpos.ne, testBit_rotateLeft (by decide), if_pos rfl]
      | succ k =>
          have hplace : (k + 1 + width.bits) % (width.bits + 1) = k := by
            rw [Nat.add_right_comm, Nat.add_assoc, Nat.add_mod_right, Nat.mod_eq_of_lt (by omega)]
          rw [shift, turn, hplace, if_neg (Nat.ne_of_lt hk)]
          split
          case isTrue htop =>
              rw [hcarry, ← htop]
              rfl
          case isFalse =>
              have hlt : k + 1 < 16 := by have := width.bits_le; omega
              rw [testBit_rotateLeft hlt, if_neg (Nat.succ_ne_zero k), Nat.add_sub_cancel]
  | right =>
      by_cases htop : k = width.bits
      · rw [shift, turn, htop, Nat.mod_self, if_pos rfl, if_neg hpos.ne, carryOut_rotateRight]
      · have hplace : (k + 1) % (width.bits + 1) = k + 1 := Nat.mod_eq_of_lt (by omega)
        have hcarry : k = width.bits - 1 ↔ k + 1 = width.bits := by omega
        simp only [shift, turn, hplace, if_neg htop, testBit_rotateRight hvalue, hcarry]

-- Turns add up, and turning the ring all around brings it back.

@[simp] theorem turns_nil (width : Width) : turns width [] = 0 := rfl

@[simp] theorem turns_cons (width : Width) (rotation : Rotation) (rotations : List Rotation) :
    turns width (rotation :: rotations) = rotation.turn width + turns width rotations :=
  List.sum_cons

theorem turns_append (width : Width) (first second : List Rotation) :
    turns width (first ++ second) = turns width first + turns width second := by
  rw [turns, List.map_append, List.sum_append_nat]
  rfl

theorem turns_replicate (width : Width) (rotation : Rotation) (count : Nat) :
    turns width (List.replicate count rotation) = count * rotation.turn width := by
  rw [turns, List.map_replicate, List.sum_replicate_nat]

-- As many turns around as there are, one way or the other.
def Returns (width : Width) (rotations : List Rotation) : Prop :=
  turns width rotations % (width.bits + 1) = 0

theorem returns_of_mem {rotations : List Rotation}
    (hmem : rotations ∈ [[left, right], [right, left], List.replicate (width.bits + 1) left,
      List.replicate (width.bits + 1) right]) : Returns width rotations := by
  simp only [List.mem_cons, List.not_mem_nil, or_false] at hmem
  rcases hmem with rfl | rfl | rfl | rfl
  · simp [Returns, turn]
  · simp [Returns, turn, Nat.add_comm]
  · rw [Returns, turns_replicate, Nat.mul_mod_right]
  · rw [Returns, turns_replicate, Nat.mul_mod_right]

end Rotation

end Console816
