import Mathlib.Order.Bounds.Basic
import Console816.Width

namespace Console816.Stack

-- A push or a pull. A push of a byte takes the low byte of its value.
inductive Step where
  | push (value : UInt16) (width : Width)
  | pull (width : Width)
  deriving DecidableEq, Repr

-- Each pull belongs to a push of its width, in the way of brackets.
inductive Balanced : List Step → Prop
  | nil : Balanced []
  | enclosed {inner rest : List Step} (value : UInt16) (width : Width) (hinner : Balanced inner)
      (hrest : Balanced rest) : Balanced (.push value width :: (inner ++ .pull width :: rest))

-- The last push of which nothing has been pulled yet.
def LastOpen (before : List Step) (value : UInt16) (width : Width) : Prop :=
  ∃ earlier inner, before = earlier ++ .push value width :: inner ∧ Balanced inner

def Step.growth : Step → Int
  | push _ width => width.bytes
  | pull width => -width.bytes

-- How many more bytes have been pushed than pulled.
def outstanding : List Step → Int
  | [] => 0
  | step :: steps => step.growth + outstanding steps

-- The numbers of bytes that are outstanding on the way.
def depths (steps : List Step) : Set Int :=
  { count | ∃ first, first <+: steps ∧ outstanding first = count }

-- The greatest of them.
def deepest : List Step → Nat
  | [] => 0
  | step :: steps => (step.growth + deepest steps).toNat

@[simp] theorem outstanding_nil : outstanding [] = 0 := rfl

@[simp] theorem outstanding_cons (step : Step) (steps : List Step) :
    outstanding (step :: steps) = step.growth + outstanding steps :=
  rfl

@[simp] theorem outstanding_append (first second : List Step) :
    outstanding (first ++ second) = outstanding first + outstanding second := by
  induction first with
  | nil => exact (Int.zero_add _).symm
  | cons step first ih =>
      rw [List.cons_append, outstanding_cons, outstanding_cons, ih, Int.add_assoc]

theorem deepest_append (first second : List Step) :
    (deepest (first ++ second) : Int) =
      max (deepest first : Int) (outstanding first + deepest second) := by
  induction first with
  | nil => simp [deepest]
  | cons step first ih =>
      simp only [List.cons_append, deepest, outstanding_cons]
      omega

theorem outstanding_le_deepest {first steps : List Step} (hfirst : first <+: steps) :
    outstanding first ≤ deepest steps := by
  obtain ⟨rest, rfl⟩ := hfirst
  induction first with
  | nil => exact Int.natCast_nonneg _
  | cons step first ih =>
      simp only [List.cons_append, deepest, outstanding_cons]
      omega

theorem isGreatest_deepest (steps : List Step) : IsGreatest (depths steps) (deepest steps) := by
  refine ⟨?_, fun count ⟨first, hfirst, hcount⟩ => hcount ▸ outstanding_le_deepest hfirst⟩
  induction steps with
  | nil => exact ⟨[], List.nil_prefix, rfl⟩
  | cons step steps ih =>
      obtain ⟨first, hfirst, hcount⟩ := ih
      by_cases hshallow : step.growth + deepest steps ≤ 0
      · exact ⟨[], List.nil_prefix, by simp only [outstanding_nil, deepest]; omega⟩
      · refine ⟨step :: first, List.cons_prefix_cons.mpr ⟨rfl, hfirst⟩, ?_⟩
        rw [outstanding_cons, hcount, deepest]
        omega

namespace Balanced

variable {inner steps : List Step}

@[simp] theorem outstanding_eq_zero (hbalanced : Balanced steps) : outstanding steps = 0 := by
  induction hbalanced with
  | nil => rfl
  | enclosed value width _ _ hinner hrest =>
      simp only [outstanding_cons, outstanding_append, Step.growth, hinner, hrest]
      omega

-- A pair of brackets with what is in it, and then the rest.
theorem deepest_enclosed (hinner : Balanced inner) (value : UInt16) (width : Width)
    (rest : List Step) :
    deepest (.push value width :: (inner ++ .pull width :: rest)) =
      max (width.bytes + deepest inner) (deepest rest) := by
  have happend := deepest_append inner (.pull width :: rest)
  rw [hinner.outstanding_eq_zero] at happend
  simp only [deepest, Step.growth] at happend ⊢
  omega

end Balanced

-- Where a sequence may be broken off that begins with a pair of brackets.
theorem prefix_enclosed {first inner rest : List Step} {value : UInt16} {width : Width}
    (hfirst : first <+: .push value width :: (inner ++ .pull width :: rest)) :
    first = [] ∨ (∃ within, first = .push value width :: within ∧ within <+: inner) ∨
      ∃ later, first = .push value width :: (inner ++ .pull width :: later) ∧ later <+: rest := by
  rcases List.prefix_cons_iff.mp hfirst with rfl | ⟨within, rfl, hwithin⟩
  · exact .inl rfl
  · rcases List.prefix_or_prefix_of_prefix hwithin (List.prefix_append inner _) with h | h
    · exact .inr (.inl ⟨within, rfl, h⟩)
    · obtain ⟨closing, rfl⟩ := h
      rw [List.prefix_append_right_inj] at hwithin
      rcases List.prefix_cons_iff.mp hwithin with rfl | ⟨later, rfl, hlater⟩
      · exact .inr (.inl ⟨inner, by rw [List.append_nil], List.prefix_refl inner⟩)
      · exact .inr (.inr ⟨later, rfl, hlater⟩)

theorem LastOpen.append {before : List Step} {value : UInt16} {width : Width}
    (hopen : LastOpen before value width) (earlier : List Step) :
    LastOpen (earlier ++ before) value width := by
  obtain ⟨first, inner, rfl, hinner⟩ := hopen
  exact ⟨earlier ++ first, inner, by rw [List.append_assoc], hinner⟩

namespace Balanced

variable {steps : List Step}

-- Nothing is pulled before it has been pushed.
theorem outstanding_nonneg (hbalanced : Balanced steps) {first : List Step}
    (hfirst : first <+: steps) : 0 ≤ outstanding first := by
  induction hbalanced generalizing first with
  | nil => rw [List.prefix_nil.mp hfirst, outstanding_nil]
  | enclosed value width hinner _ within later =>
      rcases prefix_enclosed hfirst with rfl | ⟨first, rfl, hwithin⟩ | ⟨first, rfl, hlater⟩
      · exact Int.le_refl 0
      · have hfirst := within hwithin
        simp only [outstanding_cons, Step.growth]
        omega
      · have hfirst := later hlater
        simp only [outstanding_cons, outstanding_append, Step.growth, hinner.outstanding_eq_zero]
        omega

-- What follows a push leaves room for what came before.
theorem room_above (hbalanced : Balanced steps) {before inner : List Step} {value : UInt16}
    {width : Width} (hbegins : before ++ .push value width :: inner <+: steps) :
    width.bytes + deepest inner ≤ deepest steps := by
  have hnonneg := hbalanced.outstanding_nonneg ((List.prefix_append before _).trans hbegins)
  obtain ⟨rest, rfl⟩ := hbegins
  have hwhole := deepest_append (before ++ .push value width :: inner) rest
  have hpart := deepest_append before (.push value width :: inner)
  simp only [deepest, Step.growth] at hpart
  omega

theorem exists_lastOpen (hbalanced : Balanced steps) {before : List Step} {width : Width}
    (hbefore : before ++ [.pull width] <+: steps) : ∃ value, LastOpen before value width := by
  induction hbalanced generalizing before with
  | nil => simp at hbefore
  | @enclosed inner rest value width' hinner _ within later =>
      rcases prefix_enclosed hbefore with hnil | ⟨first, hfirst, hwithin⟩ | ⟨first, hfirst, hlater⟩
      · simp at hnil
      · cases before with
        | nil => cases hfirst
        | cons step before =>
            obtain ⟨rfl, rfl⟩ := List.cons.inj hfirst
            obtain ⟨value', hopen⟩ := within hwithin
            exact ⟨value', hopen.append [_]⟩
      · rcases List.eq_nil_or_concat first with rfl | ⟨first, step, rfl⟩
        · have hclosing : before ++ [.pull width] =
              (.push value width' :: inner) ++ [.pull width'] := hfirst
          obtain ⟨rfl, hpull⟩ := List.append_inj' hclosing rfl
          cases hpull
          exact ⟨value, [], inner, rfl, hinner⟩
        · rw [List.concat_eq_append] at hfirst hlater
          have hafter : before ++ [.pull width] =
              (.push value width' :: (inner ++ .pull width' :: first)) ++ [step] := by
            simpa using hfirst
          obtain ⟨rfl, hstep⟩ := List.append_inj' hafter rfl
          cases hstep
          obtain ⟨value', hopen⟩ := later hlater
          have hlast := hopen.append (.push value width' :: (inner ++ [.pull width']))
          exact ⟨value', by simpa using hlast⟩

end Balanced

end Console816.Stack
