import Console816.Memory

namespace Console816

-- A memory without holes. A load gives the byte that was stored last, and nothing fails.
structure FlatMemory where
  byte : Address → UInt8

namespace FlatMemory

def set (memory : FlatMemory) (address : Address) (value : UInt8) : FlatMemory where
  byte other := if other = address then value else memory.byte other

instance : Memory FlatMemory where
  load address memory := (.ok (memory.byte address), memory)
  store address value memory := (.ok (), memory.set address value)

@[simp] theorem set_byte_self (memory : FlatMemory) (address : Address) (value : UInt8) :
    (memory.set address value).byte address = value :=
  if_pos rfl

theorem set_byte_of_ne (memory : FlatMemory) {address other : Address} (value : UInt8)
    (hne : other ≠ address) : (memory.set address value).byte other = memory.byte other :=
  if_neg hne

-- Bytes that are copied one after the other. What is read may have been written before.
def copy (memory : FlatMemory) (source target : Nat → Address) : Nat → FlatMemory
  | 0 => memory
  | count + 1 =>
    let copied := memory.copy source target count
    copied.set (target count) (copied.byte (source count))

section Copy

variable {source target : Nat → Address} {count : Nat}

theorem copy_byte_of_ne (memory : FlatMemory) {address : Address}
    (hout : ∀ i < count, address ≠ target i) :
    (memory.copy source target count).byte address = memory.byte address := by
  induction count with
  | zero => rfl
  | succ count ih =>
      have hrest := ih fun i hi => hout i (Nat.lt_succ_of_lt hi)
      rw [copy, set_byte_of_ne _ _ (hout count (Nat.lt_succ_self count)), hrest]

-- Every byte arrives as it was, when none is written twice, and none before it is read.
theorem copy_byte_target (memory : FlatMemory)
    (hfresh : ∀ j < count, ∀ i < j, source j ≠ target i)
    (hdistinct : ∀ j < count, ∀ i < j, target i ≠ target j) {i : Nat} (hi : i < count) :
    (memory.copy source target count).byte (target i) = memory.byte (source i) := by
  induction count with
  | zero => exact absurd hi (Nat.not_lt_zero i)
  | succ count ih =>
      have hlast := Nat.lt_succ_self count
      rw [copy]
      rcases Nat.lt_succ_iff_lt_or_eq.mp hi with hlt | rfl
      · rw [set_byte_of_ne _ _ (hdistinct count hlast i hlt)]
        exact ih (fun j hj => hfresh j (Nat.lt_succ_of_lt hj))
          (fun j hj => hdistinct j (Nat.lt_succ_of_lt hj)) hlt
      · rw [set_byte_self]
        exact memory.copy_byte_of_ne fun j hj => hfresh i hlast j hj

end Copy

end FlatMemory

end Console816
