import Console816.Proofs.Console.SaveState
import Console816.Proofs.Journal.Observed
import Console816.Proofs.Session.Pacing

namespace Console816

namespace Console

def Command.isVerticalBlank : Command → Bool
  | verticalBlank => true
  | _ => false

-- What the ticks among the commands answer with, apart from those that fail.
def spent (console : Console) : List Command → List Nat
  | [] => []
  | command :: rest =>
    match (command.apply console).1 with
    | .ok (some cycles) => cycles.toNat :: spent (command.apply console).2 rest
    | _ => spent (command.apply console).2 rest

theorem spent_append (console : Console) (before after : List Command) :
    console.spent (before ++ after) = console.spent before ++ (console.run before).spent after := by
  induction before generalizing console with
  | nil => rfl
  | cons command rest ih =>
      simp only [List.cons_append, spent, run, ih]
      split <;> rfl

theorem lt_of_mem_spent (console : Console) (commands : List Command) :
    ∀ cycles ∈ console.spent commands, cycles < UInt32.size := by
  induction commands generalizing console with
  | nil => exact fun _ hmem => nomatch hmem
  | cons command rest ih =>
      unfold spent
      split
      case h_1 cycles _ => exact List.forall_mem_cons.mpr ⟨cycles.toNat_lt, ih _⟩
      case h_2 => exact ih _

end Console

namespace Session

-- What a step asks of the console.
def turn (session : Session) : List Console.Command :=
  match session.observed.tick.1 with
  | .error _ => [.tick]
  | .ok cycles =>
    if (session.pacer.advance cycles.toNat).1 then [.tick, .verticalBlank] else [.tick]

def calls (session : Session) (trace : Bool) : Nat → List Console.Command
  | 0 => []
  | remaining + 1 =>
    if session.observed.console.processor.interrupts.stopped then []
    else
      session.turn ++
        match session.step trace with
        | (.ok _, next) => calls next trace remaining
        | (.error _, _) => []

-- The console has got the calls, and the pacer has counted what their ticks answered with.
structure Follows (before : Session) (calls : List Console.Command) (after : Session) : Prop where
  console : after.observed.console = before.observed.console.run calls
  pacer : after.pacer = before.pacer.advanceAll (before.observed.console.spent calls)
  frames : after.pacer.frames = before.pacer.frames + calls.countP (·.isVerticalBlank)

theorem Follows.trans {before between after : Session} {calls more : List Console.Command}
    (hfirst : Follows before calls between) (hnext : Follows between more after) :
    Follows before (calls ++ more) after where
  console := by rw [hnext.console, hfirst.console, Console.run_append]
  pacer := by
    rw [hnext.pacer, hfirst.pacer, hfirst.console, Console.spent_append, Pacer.advanceAll_append]
  frames := by rw [hnext.frames, hfirst.frames, List.countP_append, Nat.add_assoc]

theorem follows_step (session : Session) (trace : Bool) :
    Follows session session.turn (session.step trace).2 := by
  obtain ⟨observed, pacer⟩ := session
  obtain ⟨hanswer, hconsole⟩ := observed.tick_transparent
  simp only [turn, step]
  rcases htick : observed.tick with ⟨answer, ticked⟩
  rw [htick] at hanswer hconsole
  cases answer with
  | error error =>
      have hspent : observed.console.spent [.tick] = [] := by
        simp only [Console.spent, Console.Command.apply, ← hanswer, Except.map]
      exact ⟨hconsole, by rw [hspent]; rfl, rfl⟩
  | ok cycles =>
      have hframes := pacer.frames_advance cycles.toNat
      dsimp only
      rcases hpaced : pacer.advance cycles.toNat with ⟨due, paced⟩
      rw [hpaced] at hframes
      have hpacer (more : List Console.Command) :
          pacer.advanceAll (observed.console.spent (.tick :: more)) =
            paced.advanceAll (ticked.console.spent more) := by
        simp only [Console.spent, Console.Command.apply, ← hanswer, ← hconsole, Except.map,
          Pacer.advanceAll, hpaced]
      cases due with
      | true =>
          refine ⟨?_, (hpacer [.verticalBlank]).symm, hframes⟩
          cases trace <;> exact congrArg Console.verticalBlank hconsole
      | false =>
          refine ⟨?_, (hpacer []).symm, hframes⟩
          cases trace <;> exact hconsole

theorem follows_runSteps (session : Session) (trace : Bool) (done steps : Nat) :
    Follows session (session.calls trace steps) (session.runSteps trace done steps).2 := by
  induction steps generalizing session done with
  | zero => exact ⟨rfl, rfl, rfl⟩
  | succ remaining ih =>
      have hstep := session.follows_step trace
      unfold runSteps calls
      split
      · exact ⟨rfl, rfl, rfl⟩
      rcases hnext : session.step trace with ⟨answer, next⟩
      rw [hnext] at hstep
      cases answer with
      | ok _ => exact hstep.trans (ih next (done + 1))
      | error error =>
          rw [List.append_nil]
          exact hstep

-- A step answers once at most.

theorem length_spent_turn (session : Session) :
    (session.observed.console.spent session.turn).length ≤ 1 := by
  have htick (more : List Console.Command)
      (hmore : ∀ console : Console, console.spent more = []) :
      (session.observed.console.spent (.tick :: more)).length ≤ 1 := by
    simp only [Console.spent, hmore]
    split <;> simp
  unfold turn
  split
  · exact htick [] fun _ => rfl
  · split
    · exact htick [.verticalBlank] fun _ => rfl
    · exact htick [] fun _ => rfl

theorem length_spent_calls (session : Session) (trace : Bool) (steps : Nat) :
    (session.observed.console.spent (session.calls trace steps)).length ≤ steps := by
  induction steps generalizing session with
  | zero => exact Nat.le_refl 0
  | succ remaining ih =>
      have hturn := session.length_spent_turn
      have hconsole := (session.follows_step trace).console
      unfold calls
      split
      · exact Nat.zero_le _
      rcases hnext : session.step trace with ⟨answer, next⟩
      rw [hnext] at hconsole
      rw [Console.spent_append, List.length_append, ← hconsole]
      cases answer with
      | ok _ => exact (Nat.add_le_add hturn (ih next)).trans_eq (Nat.add_comm 1 remaining)
      | error _ => exact hturn.trans (Nat.le_add_left 1 remaining)

-- A pacer with counters of 64 bits goes as far for 2^32 steps at least.
theorem pacer_fits (observed : ObservedConsole) (trace : Bool) {steps : Nat}
    (hsteps : steps ≤ UInt32.size) :
    let after := (runSteps { observed } trace 0 steps).2
    Pacer.cyclesPerFrame * after.pacer.frames + after.pacer.cycles < UInt64.size := by
  intro after
  have hpacer := (follows_runSteps { observed } trace 0 steps).pacer
  have htime := Pacer.time_le (observed.console.lt_of_mem_spent (calls { observed } trace steps))
  have hlength := length_spent_calls { observed } trace steps
  rw [show after.pacer = _ from hpacer, Pacer.time_fresh]
  calc
    _ ≤ _ := htime
    _ ≤ UInt32.size * (UInt32.size - 1) := Nat.mul_le_mul_right _ (hlength.trans hsteps)
    _ < UInt64.size := by decide

-- Of a longer run, a shorter one is the beginning.
theorem calls_isPrefix (session : Session) (trace : Bool) {fewer steps : Nat}
    (hfewer : fewer ≤ steps) : session.calls trace fewer <+: session.calls trace steps := by
  induction fewer generalizing session steps with
  | zero => exact List.nil_prefix
  | succ fewer ih =>
      obtain ⟨steps, rfl⟩ := Nat.exists_eq_add_of_le' hfewer
      have hfewer := Nat.le_add_left fewer steps
      unfold calls
      split
      · exact List.prefix_rfl
      refine (List.prefix_append_right_inj _).mpr ?_
      split
      case h_1 next _ => exact ih next hfewer
      case h_2 => exact List.prefix_rfl

-- However many steps a run makes on whatever console: the vertical blanks are those of the calls,
-- and they come as soon as one a step allows. One is missing for every whole frame that the pacer
-- still counts, and none as long as no step takes longer than a frame.
theorem vblanks_paced (observed : ObservedConsole) (trace : Bool) (steps : Nat) :
    let session : Session := { observed }
    let calls := session.calls trace steps
    let spent := observed.console.spent calls
    let after := (session.runSteps trace 0 steps).2
    after.observed.console = observed.console.run calls ∧
      after.pacer.frames = calls.countP (·.isVerticalBlank) ∧
      Pacer.cyclesPerFrame * after.pacer.frames + after.pacer.cycles = Pacer.time spent ∧
      IsLeast (Pacer.bounds spent) after.pacer.frames ∧
      (after.pacer.frames = Pacer.time spent / Pacer.cyclesPerFrame ↔
        after.pacer.cycles < Pacer.cyclesPerFrame) ∧
      ((∀ cycles ∈ spent, cycles ≤ Pacer.cyclesPerFrame) →
        after.pacer.frames = Pacer.time spent / Pacer.cyclesPerFrame) ∧
      ∀ fewer ≤ steps, session.calls trace fewer <+: calls := by
  intro session calls spent after
  have hfollows := session.follows_runSteps trace 0 steps
  have hpacer : after.pacer = Pacer.advanceAll {} spent := hfollows.pacer
  refine ⟨hfollows.console, hfollows.frames.trans (Nat.zero_add _), ?_, ?_, ?_, ?_,
    fun _ => session.calls_isPrefix trace⟩
  · rw [hpacer]
    exact Pacer.time_fresh spent
  · rw [hpacer]
    exact Pacer.frames_isLeast spent
  · rw [hpacer]
    exact Pacer.frames_eq_iff spent
  · intro hshort
    rw [hpacer]
    exact (Pacer.frames_eq_iff spent).mpr
      (Pacer.cycles_lt_of_short hshort Pacer.cyclesPerFrame_pos)

-- A console that runs NOPs, with transfers behind it that no tick has answered for.
def afterTransfers (pause : UInt32) : ObservedConsole :=
  let console := (Console.powerOn.insert (Console.nops "")).2
  ⟨{ console with bus := { console.bus with pause } }, {}⟩

-- The first step takes a whole frame.
theorem vblanks_paced_afterTransfers :
    (afterTransfers 59559).console.spent (calls { observed := afterTransfers 59559 } false 3) =
        [59561, 2, 2] ∧
      (runSteps { observed := afterTransfers 59559 } false 0 3).2.pacer.frames = 1 := by
  have hspent :
      (afterTransfers 59559).console.spent (calls { observed := afterTransfers 59559 } false 3) =
        [59561, 2, 2] := by
    decide +kernel
  obtain ⟨-, -, -, -, -, hshort, -⟩ := vblanks_paced (afterTransfers 59559) false 3
  rw [hspent] at hshort
  exact ⟨hspent, hshort (by decide)⟩

end Session

end Console816
