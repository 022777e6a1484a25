import Mathlib.Data.List.Induction
import Mathlib.Order.Bounds.Basic
import Console816.Session

namespace Console816.Pacer

-- The time that passes in steps, each given by the cycles that it answers with.
def time : List Nat → Nat
  | [] => 0
  | cycles :: rest => max cycles 1 + time rest

theorem time_append (before after : List Nat) :
    time (before ++ after) = time before + time after := by
  induction before with
  | nil => exact (Nat.zero_add _).symm
  | cons cycles rest ih => simp only [List.cons_append, time, ih, Nat.add_assoc]

@[simp] theorem time_singleton (cycles : Nat) : time [cycles] = max cycles 1 := rfl

def advanceAll (pacer : Pacer) : List Nat → Pacer
  | [] => pacer
  | cycles :: rest => advanceAll (pacer.advance cycles).2 rest

theorem advanceAll_append (pacer : Pacer) (before after : List Nat) :
    pacer.advanceAll (before ++ after) = (pacer.advanceAll before).advanceAll after := by
  induction before generalizing pacer with
  | nil => rfl
  | cons cycles rest ih => exact ih _

theorem cyclesPerFrame_pos : 0 < cyclesPerFrame := by decide

theorem advance_of_le {pacer : Pacer} {spent : Nat}
    (hdue : cyclesPerFrame ≤ pacer.cycles + max spent 1) :
    pacer.advance spent =
      (true, ⟨pacer.cycles + max spent 1 - cyclesPerFrame, pacer.frames + 1⟩) :=
  if_pos hdue

theorem advance_of_lt {pacer : Pacer} {spent : Nat}
    (hearly : pacer.cycles + max spent 1 < cyclesPerFrame) :
    pacer.advance spent = (false, ⟨pacer.cycles + max spent 1, pacer.frames⟩) :=
  if_neg (Nat.not_le.mpr hearly)

theorem frames_advance (pacer : Pacer) (spent : Nat) :
    (pacer.advance spent).2.frames = pacer.frames + if (pacer.advance spent).1 then 1 else 0 := by
  by_cases hdue : cyclesPerFrame ≤ pacer.cycles + max spent 1
  · rw [advance_of_le hdue]
    rfl
  · rw [advance_of_lt (Nat.not_le.mp hdue)]
    rfl

-- Every cycle is either part of a frame or still counted.

theorem time_advance (pacer : Pacer) (spent : Nat) :
    cyclesPerFrame * (pacer.advance spent).2.frames + (pacer.advance spent).2.cycles =
      cyclesPerFrame * pacer.frames + pacer.cycles + max spent 1 := by
  by_cases hdue : cyclesPerFrame ≤ pacer.cycles + max spent 1
  · rw [advance_of_le hdue]
    dsimp only
    rw [Nat.mul_succ]
    omega
  · rw [advance_of_lt (Nat.not_le.mp hdue), Nat.add_assoc]

theorem time_advanceAll (pacer : Pacer) (spent : List Nat) :
    cyclesPerFrame * (pacer.advanceAll spent).frames + (pacer.advanceAll spent).cycles =
      cyclesPerFrame * pacer.frames + pacer.cycles + time spent := by
  induction spent generalizing pacer with
  | nil => rfl
  | cons cycles rest ih =>
      have hrest := ih (pacer.advance cycles).2
      rw [time_advance] at hrest
      rw [time, ← Nat.add_assoc]
      exact hrest

theorem time_fresh (spent : List Nat) :
    cyclesPerFrame * (advanceAll {} spent).frames + (advanceAll {} spent).cycles = time spent := by
  rw [time_advanceAll, Nat.mul_zero, Nat.zero_add, Nat.zero_add]

theorem time_le {spent : List Nat} (hcycles : ∀ cycles ∈ spent, cycles < UInt32.size) :
    time spent ≤ spent.length * (UInt32.size - 1) := by
  induction spent with
  | nil => exact Nat.zero_le _
  | cons cycles rest ih =>
      obtain ⟨hfirst, hmore⟩ := List.forall_mem_cons.mp hcycles
      have hrest := ih hmore
      have htaken : max cycles 1 ≤ UInt32.size - 1 := max_le (Nat.le_pred_of_lt hfirst) (by decide)
      rw [time, List.length_cons, Nat.succ_mul, Nat.add_comm]
      exact Nat.add_le_add hrest htaken

-- Whether a vertical blank for every whole frame has come shows in what is left over.
theorem frames_eq_iff (spent : List Nat) :
    (advanceAll {} spent).frames = time spent / cyclesPerFrame ↔
      (advanceAll {} spent).cycles < cyclesPerFrame := by
  have htime := time_fresh spent
  constructor
  · intro hframes
    have hwhole := Nat.div_add_mod (time spent) cyclesPerFrame
    have hrest := Nat.mod_lt (time spent) cyclesPerFrame_pos
    rw [hframes] at htime
    omega
  · intro hleft
    rw [← htime, Nat.mul_add_div cyclesPerFrame_pos, Nat.div_eq_of_lt hleft, Nat.add_zero]

-- Steps of a frame at most never leave more than that.
theorem cycles_lt_of_short {spent : List Nat} (hshort : ∀ cycles ∈ spent, cycles ≤ cyclesPerFrame)
    {pacer : Pacer} (hpacer : pacer.cycles < cyclesPerFrame) :
    (pacer.advanceAll spent).cycles < cyclesPerFrame := by
  induction spent generalizing pacer with
  | nil => exact hpacer
  | cons cycles rest ih =>
      obtain ⟨hcycles, hrest⟩ := List.forall_mem_cons.mp hshort
      have htaken : max cycles 1 ≤ cyclesPerFrame := max_le hcycles cyclesPerFrame_pos
      refine ih hrest ?_
      by_cases hdue : cyclesPerFrame ≤ pacer.cycles + max cycles 1
      · rw [advance_of_le hdue]
        dsimp only
        omega
      · rw [advance_of_lt (Nat.not_le.mp hdue)]
        exact Nat.not_le.mp hdue

-- A vertical blank comes if a frame is complete that had none, but only one with each step.
theorem frames_append (spent : List Nat) (cycles : Nat) :
    (advanceAll {} (spent ++ [cycles])).frames =
      min ((advanceAll {} spent).frames + 1) (time (spent ++ [cycles]) / cyclesPerFrame) := by
  have htime := time_fresh spent
  rw [advanceAll_append, time_append, time_singleton, ← htime, Nat.add_assoc,
    Nat.mul_add_div cyclesPerFrame_pos]
  change (Pacer.advance _ cycles).2.frames = _
  by_cases hdue : cyclesPerFrame ≤ (advanceAll {} spent).cycles + max cycles 1
  · rw [advance_of_le hdue]
    have hframe := (Nat.one_le_div_iff cyclesPerFrame_pos).mpr hdue
    exact (min_eq_left (Nat.add_le_add_left hframe _)).symm
  · have hearly := Nat.not_le.mp hdue
    rw [advance_of_lt hearly, Nat.div_eq_of_lt hearly]
    exact (min_eq_right (Nat.le_succ _)).symm

-- As many frames as may have had their vertical blanks: those that are complete after some of the
-- steps, and one for each of the others.
def bounds (spent : List Nat) : Set Nat :=
  { count | ∃ steps ≤ spent.length,
      count = time (spent.take steps) / cyclesPerFrame + (spent.length - steps) }

-- The vertical blanks that come are as many as every one of these bounds lets come.
theorem frames_isLeast (spent : List Nat) :
    IsLeast (bounds spent) (advanceAll {} spent).frames := by
  induction spent using List.reverseRecOn with
  | nil => exact ⟨⟨0, Nat.le_refl 0, rfl⟩, fun _ _ => Nat.zero_le _⟩
  | append_singleton spent cycles ih =>
      obtain ⟨⟨steps, hsteps, hframes⟩, hleast⟩ := ih
      rw [frames_append]
      constructor
      · rcases Nat.le_total ((advanceAll {} spent).frames + 1)
          (time (spent ++ [cycles]) / cyclesPerFrame) with hlate | hall
        · refine ⟨steps, hsteps.trans (by simp), ?_⟩
          rw [min_eq_left hlate, hframes, List.take_append_of_le_length hsteps,
            List.length_append, List.length_singleton]
          omega
        · refine ⟨(spent ++ [cycles]).length, Nat.le_refl _, ?_⟩
          rw [min_eq_right hall, List.take_length, Nat.sub_self, Nat.add_zero]
      · rintro count ⟨steps, hsteps, rfl⟩
        rw [List.length_append, List.length_singleton] at hsteps
        rcases Nat.lt_or_ge spent.length steps with hall | hfewer
        · obtain rfl : steps = spent.length + 1 := by omega
          refine (min_le_right _ _).trans ?_
          rw [← List.length_singleton (a := cycles), ← List.length_append, List.take_length]
          exact Nat.le_add_right _ _
        · have hbound := hleast ⟨steps, hfewer, rfl⟩
          refine (min_le_left _ _).trans ?_
          rw [List.take_append_of_le_length hfewer, List.length_append, List.length_singleton]
          omega

-- Two steps have at most two vertical blanks, even if the first takes seven frames.
example :
    (advanceAll {} [458750, 7]).frames = 2 ∧ time [458750, 7] / cyclesPerFrame = 7 := by
  decide

end Console816.Pacer
