import Console816.Proofs.Memory.Remembering
import Console816.Proofs.Processor.StackSteps

namespace Console816

-- The same machine with another stack.
def Machine.withStack (machine : Machine FlatMemory) (s : UInt16) (memory : FlatMemory) :
    Machine FlatMemory :=
  { machine with
    registers := { machine.registers with s }
    memory }

namespace Stack

open Execution

variable {μ : Type} [Memory μ]

-- A pull answers with what it has pulled.
def Step.perform : Step → Execution μ (Option UInt16)
  | push value width => do
    pushWide value width
    return none
  | pull width => return some (← pullWide width)

-- One step after the other, with an answer for each.
def run : List Step → Execution μ (List (Option UInt16))
  | [] => return []
  | step :: steps => do
    let answer ← step.perform
    let answers ← run steps
    return answer :: answers

theorem run_append (first second : List Step) :
    (run (first ++ second) : Execution μ (List (Option UInt16))) = do
      let answers ← run first
      let more ← run second
      return answers ++ more := by
  induction first with
  | nil => simp [run]
  | cons step first ih => simp [run, ih]

section Lockstep

variable {ν : Type} [Memory ν] {kept : Registers → Prop} {related : μ → ν → Prop}
  (lockstep : Lockstep kept related)
include lockstep

theorem matched_perform (step : Step) :
    Matched (Alike kept related) step.perform step.perform := by
  cases step with
  | push value width =>
      exact (lockstep.composes.pushWide value width).bind fun _ => .pure none
  | pull width => exact (lockstep.composes.pullWide width).bind fun _ => .pure _

theorem matched_run (steps : List Step) :
    Matched (Alike kept related) (run steps) (run steps) := by
  induction steps with
  | nil => exact .pure []
  | cons step steps ih =>
      exact (matched_perform lockstep step).bind fun _ => ih.bind fun _ => .pure _

end Lockstep

section Succeeded

variable {machine between after : Machine μ} {answers more : List (Option UInt16)}
  {first second steps : List Step} {step : Step} {answer : Option UInt16}

theorem run_cons_of_ok (hstep : step.perform machine = (.ok answer, between))
    (hsteps : run steps between = (.ok answers, after)) :
    run (step :: steps) machine = (.ok (answer :: answers), after) := by
  rw [run, bind_of_ok hstep, bind_of_ok hsteps]
  rfl

theorem run_append_of_ok (hfirst : run first machine = (.ok answers, between))
    (hsecond : run second between = (.ok more, after)) :
    run (first ++ second) machine = (.ok (answers ++ more), after) := by
  rw [run_append, bind_of_ok hfirst, bind_of_ok hsecond]
  rfl

theorem after_run_cons (hstep : step.perform machine = (.ok answer, between)) :
    (run (step :: steps) machine).2 = (run steps between).2 := by
  rw [run, bind_of_ok hstep, bind_apply]
  rcases run steps between with ⟨answers, after⟩
  cases answers <;> rfl

theorem after_run_append (hfirst : run first machine = (.ok answers, between)) :
    (run (first ++ second) machine).2 = (run second between).2 := by
  rw [run_append, bind_of_ok hfirst, bind_apply]
  rcases run second between with ⟨more, after⟩
  cases more <;> rfl

theorem length_of_run (hrun : run steps machine = (.ok answers, after)) :
    answers.length = steps.length := by
  induction steps generalizing machine answers with
  | nil =>
      cases hrun
      rfl
  | cons step steps ih =>
      obtain ⟨answer, between, -, hrest⟩ := of_bind_ok hrun
      obtain ⟨answers', after', hsteps, hanswers⟩ := of_bind_ok hrest
      cases hanswers
      rw [List.length_cons, List.length_cons, ih hsteps]

-- Every step has its answer where it stands itself.
theorem answer_of_run {last : Machine μ}
    (hrun : run (first ++ step :: second) machine = (.ok answers, last))
    (hfirst : run first machine = (.ok more, between))
    (hstep : step.perform between = (.ok answer, after)) :
    answers[first.length]? = some answer := by
  rw [run_append, bind_of_ok hfirst] at hrun
  obtain ⟨rest, _, hrest, hanswers⟩ := of_bind_ok hrun
  rw [run, bind_of_ok hstep] at hrest
  obtain ⟨later, _, -, hlater⟩ := of_bind_ok hrest
  cases hlater
  cases hanswers
  rw [← length_of_run hfirst]
  simp

omit [Memory μ] in
-- An answer that is only passed on adds no accesses.
theorem accesses_bind_pure {α β : Type} (work : Execution (AccessLog μ) α) (f : α → β)
    (machine : Machine μ) :
    accesses (work >>= fun value => pure (f value)) machine = accesses work machine := by
  rw [accesses_eq, accesses_eq, bind_apply]
  rcases work machine.logged with ⟨answer, after⟩
  cases answer <;> rfl

theorem accesses_run_cons (hstep : step.perform machine = (.ok answer, between)) :
    accesses (run (step :: steps)) machine =
      accesses step.perform machine ++ accesses (run steps) between := by
  rw [run, accesses_bind_of_ok (matched_perform lockstep_log step)
    (fun _ before => (matched_run (lockstep_appended before) steps).bind fun _ => .pure _) hstep,
    accesses_bind_pure]

theorem accesses_run_append (hfirst : run first machine = (.ok answers, between)) :
    accesses (run (first ++ second)) machine =
      accesses (run first) machine ++ accesses (run second) between := by
  rw [run_append, accesses_bind_of_ok (matched_run lockstep_log first)
    (fun _ before => (matched_run (lockstep_appended before) second).bind fun _ => .pure _) hfirst,
    accesses_bind_pure]

end Succeeded

-- A flat memory.

section Flat

variable (value : UInt16) (width : Width) (machine : Machine FlatMemory)

theorem push_flat :
    (Step.push value width).perform machine =
      (.ok none, machine.push (width.encode value).reverse) := by
  cases width <;> rfl

theorem accesses_push_flat :
    accesses (Step.push value width).perform machine =
      machine.registers.pushes (width.encode value).reverse := by
  cases width <;> rfl

theorem stores_pull_flat : stores (Step.pull width).perform machine = [] := by
  cases width <;> rfl

theorem memory_pull_flat :
    ((Step.pull width).perform machine).2.memory = machine.memory := by
  cases width <;> rfl

-- No step fails. It moves S inside its page, and touches no other register.
theorem perform_flat (step : Step) :
    ∃ answer s memory, step.perform machine = (.ok answer, machine.withStack s memory) ∧
      PageHolds machine.registers.emulation s := by
  have hdown (r : Registers) : PageHolds r.emulation r.stackDown.s := fun hem => by
    rw [Registers.stackDown, if_pos hem]
    exact Word.high_pageOne _
  have hup (r : Registers) : PageHolds r.emulation r.stackUp.s := fun hem => by
    rw [Registers.stackUp, if_pos hem]
    exact Word.high_pageOne _
  cases step with
  | push value width =>
      cases width with
      | byte => exact ⟨_, _, _, rfl, hdown machine.registers⟩
      | word => exact ⟨_, _, _, rfl, hdown machine.registers.stackDown⟩
  | pull width =>
      cases width with
      | byte => exact ⟨_, _, _, rfl, hup machine.registers⟩
      | word => exact ⟨_, _, _, rfl, hup machine.registers.stackUp⟩

variable {machine}

theorem run_flat (steps : List Step)
    (hpage : PageHolds machine.registers.emulation machine.registers.s) :
    ∃ answers s memory, run steps machine = (.ok answers, machine.withStack s memory) ∧
      PageHolds machine.registers.emulation s := by
  induction steps generalizing machine with
  | nil => exact ⟨_, _, _, rfl, hpage⟩
  | cons step steps ih =>
      obtain ⟨answer, s, memory, hstep, hbetween⟩ := perform_flat machine step
      obtain ⟨answers, s', memory', hsteps, hafter⟩ := @ih (machine.withStack s memory) hbetween
      exact ⟨_, _, _, run_cons_of_ok hstep hsteps, hafter⟩

variable {value width}

-- What lies on top is what is pulled.
theorem pull_flat {s : UInt16} {count : Nat}
    (hs : machine.registers.s = below machine.registers.emulation s (count + width.bytes))
    (hholds : machine.memory.Holds machine.registers.emulation s count
      (width.encode value).reverse) :
    (Step.pull width).perform machine =
      (.ok (some (width.truncate value)),
        machine.withStack (below machine.registers.emulation s count) machine.memory) := by
  cases width with
  | byte =>
      obtain ⟨hlow, -⟩ := hholds
      have hpull : pullWide .byte machine = _ := bind_of_ok (pullByte_flat hs)
      rw [Step.perform, bind_of_ok hpull, hlow, Word.low_toUInt16]
      rfl
  | word =>
      obtain ⟨hhigh, hlow, -⟩ := hholds
      have hpull : pullWide .word machine = _ := pullWord_flat hs
      rw [Step.perform, bind_of_ok hpull, hlow, hhigh, Word.join_low_high, Width.truncate_word]
      rfl

-- A pull adds no stores to those before it and after it.
theorem stores_around_pull {between after : Machine FlatMemory} {first rest : List Step}
    {answers : List (Option UInt16)} {answer : Option UInt16}
    (hfirst : run first machine = (.ok answers, between))
    (hpull : (Step.pull width).perform between = (.ok answer, after)) :
    stores (run (first ++ .pull width :: rest)) machine =
      stores (run first) machine ++ stores (run rest) after := by
  have hpulled : (accesses (Step.pull width).perform between).filter Access.isStore = [] :=
    stores_pull_flat width between
  rw [stores, accesses_run_append hfirst, accesses_run_cons hpull, List.filter_append,
    List.filter_append, hpulled, List.nil_append]
  rfl

end Flat

-- What steps have come to: so many bytes are outstanding, and the cells of so many have been
-- stored to, which are all that has changed on the way.
structure Reaches (machine : Machine FlatMemory) (steps : List Step) (count depth : Nat)
    (answers : List (Option UInt16)) (memory : FlatMemory) : Prop where
  run : run steps machine =
    (.ok answers,
      machine.withStack (below machine.registers.emulation machine.registers.s count) memory)
  same : ∀ first, first <+: steps →
    machine.memory.SameOutside (Stack.run first machine).2.memory machine.registers.emulation
      machine.registers.s 0 depth
  stores : ∀ address,
    address ∈ (stores (Stack.run steps) machine).map Access.address ↔
      ∃ i < depth, address = cell machine.registers.emulation machine.registers.s i

-- Steps that leave nothing outstanding, wherever the stack has room for them.
def Settles (steps : List Step) : Prop :=
  ∀ machine : Machine FlatMemory, PageHolds machine.registers.emulation machine.registers.s →
    deepest steps ≤ size machine.registers.emulation →
      ∃ answers memory, Reaches machine steps 0 (deepest steps) answers memory

section Settles

variable {machine : Machine FlatMemory} {inner rest : List Step} {value : UInt16} {width : Width}

theorem length_pushed (value : UInt16) (width : Width) :
    (width.encode value).reverse.length = width.bytes := by
  rw [List.length_reverse, width.length_encode]

section Pair

variable (hpage : PageHolds machine.registers.emulation machine.registers.s)
include hpage

theorem push_flat_eq (value : UInt16) (width : Width) :
    (Step.push value width).perform machine =
      (.ok none, machine.withStack
        (below machine.registers.emulation machine.registers.s width.bytes)
        (machine.memory.push machine.registers.emulation machine.registers.s 0
          (width.encode value).reverse)) := by
  have htop := (below_zero hpage).symm
  rw [push_flat, Machine.push_below machine machine.registers.s 0 _ htop, Nat.zero_add,
    length_pushed]
  rfl

theorem mem_stores_push (address : Address) :
    address ∈ (stores (Step.push value width).perform machine).map Access.address ↔
      ∃ i < width.bytes, address = cell machine.registers.emulation machine.registers.s i := by
  have htop := (below_zero hpage).symm
  obtain ⟨haddresses, -⟩ := Registers.pushes_below (width.encode value).reverse htop
  rw [stores, accesses_push_flat, Registers.filter_pushes, haddresses, length_pushed]
  simp [List.mem_range'_1, eq_comm]

-- A push, and what is done above it. Its own bytes stay where they are.
theorem Settles.afterPush (hinner : Settles inner) (value : UInt16) (width : Width)
    (hroom : width.bytes + deepest inner ≤ size machine.registers.emulation) :
    (∃ answers memory,
      Reaches machine (.push value width :: inner) width.bytes (width.bytes + deepest inner)
        answers memory) ∧
      ∀ first, first <+: inner →
        (run (.push value width :: first) machine).2.memory.Holds machine.registers.emulation
          machine.registers.s 0 (width.encode value).reverse := by
  have hlength := length_pushed value width
  have hpush := push_flat_eq hpage value width
  obtain ⟨answers, memory, hrun, hsame, hstores⟩ := hinner
    (machine.withStack (below machine.registers.emulation machine.registers.s width.bytes)
      (machine.memory.push machine.registers.emulation machine.registers.s 0
        (width.encode value).reverse))
    (pageHolds_below _ _ _) (Nat.le_trans (Nat.le_add_left _ _) hroom)
  refine ⟨⟨none :: answers, memory, ?_, fun first hfirst => ?_, fun address => ?_⟩,
    fun first hfirst => ?_⟩
  · rw [run_cons_of_ok hpush hrun]
    simp only [Machine.withStack, below_below, Nat.add_zero]
  · rcases List.prefix_cons_iff.mp hfirst with rfl | ⟨within, rfl, hwithin⟩
    · exact .refl _ _ _
    · have hbelow := @FlatMemory.sameOutside_push machine.registers.emulation machine.registers.s
        machine.memory 0 (width.encode value).reverse
      rw [Nat.zero_add, hlength] at hbelow
      rw [after_run_cons hpush]
      exact (hbelow.mono (Nat.le_refl 0) (Nat.le_add_right _ _)).trans
        ((hsame within hwithin).of_below.mono (Nat.zero_le _) (Nat.le_refl _))
  · rw [stores, accesses_run_cons hpush, List.filter_append, List.map_append, List.mem_append]
    exact (or_congr (mem_stores_push hpage address) (hstores address)).trans exists_cell_add
  · have hpushed := @FlatMemory.holds_push machine.registers.emulation machine.registers.s
      machine.memory 0 (width.encode value).reverse (by omega)
    rw [after_run_cons hpush]
    exact hpushed.of_sameOutside (hsame first hfirst).of_below (by omega) hroom

-- The pull that belongs to it finds its bytes.
theorem pull_flat_eq {memory : FlatMemory}
    (hholds : memory.Holds machine.registers.emulation machine.registers.s 0
      (width.encode value).reverse) :
    (Step.pull width).perform (machine.withStack
        (below machine.registers.emulation machine.registers.s width.bytes) memory) =
      (.ok (some (width.truncate value)), machine.withStack machine.registers.s memory) := by
  refine (pull_flat ?_ hholds).trans ?_
  · rw [Nat.zero_add]
    rfl
  · simp only [Machine.withStack, below_zero hpage]

end Pair

theorem Settles.enclosed (hbalanced : Balanced inner) (hinner : Settles inner)
    (hrest : Settles rest) (value : UInt16) (width : Width) :
    Settles (.push value width :: (inner ++ .pull width :: rest)) := by
  intro machine hpage hroom
  rw [hbalanced.deepest_enclosed] at hroom ⊢
  obtain ⟨⟨answers, memory, hwithin⟩, hlies⟩ :=
    hinner.afterPush hpage value width (Nat.le_trans (Nat.le_max_left _ _) hroom)
  have hholds := hlies inner (List.prefix_refl inner)
  rw [hwithin.run] at hholds
  have hpull := @pull_flat_eq machine value width hpage memory hholds
  obtain ⟨answers', memory', hlater⟩ := hrest (machine.withStack machine.registers.s memory) hpage
    (Nat.le_trans (Nat.le_max_right _ _) hroom)
  have hpair (first : List Step) (hfirst : first <+: .push value width :: inner) :=
    (hwithin.same first hfirst).mono (Nat.le_refl 0) (Nat.le_max_left _ (deepest rest))
  refine ⟨answers ++ some (width.truncate value) :: answers', memory', ?_, ?_, ?_⟩
  · exact run_append_of_ok hwithin.run (run_cons_of_ok hpull hlater.run)
  · intro first hfirst
    rcases prefix_enclosed hfirst with rfl | ⟨within, rfl, hprior⟩ | ⟨later, rfl, hprior⟩
    · exact hpair [] List.nil_prefix
    · exact hpair _ (List.cons_prefix_cons.mpr ⟨rfl, hprior⟩)
    · have hclosed := hpair _ (List.prefix_refl _)
      rw [hwithin.run] at hclosed
      rw [← List.cons_append, after_run_append hwithin.run, after_run_cons hpull]
      exact hclosed.trans
        ((hlater.same later hprior).mono (Nat.le_refl 0) (Nat.le_max_right _ _))
  · intro address
    rw [← List.cons_append, stores_around_pull hwithin.run hpull, List.map_append, List.mem_append]
    exact (or_congr (hwithin.stores address) (hlater.stores address)).trans exists_cell_max

end Settles

-- The induction is on the brackets. What is in a pair lies above its push, and the rest begins
-- where the pair has begun.
theorem Balanced.settles {steps : List Step} (hbalanced : Balanced steps) : Settles steps := by
  induction hbalanced with
  | nil =>
      intro machine hpage _
      refine ⟨[], machine.memory, ?_, fun first hfirst => ?_, fun address => ?_⟩
      · rw [below_zero hpage]
        rfl
      · rw [List.prefix_nil.mp hfirst]
        exact .refl _ _ _
      · exact ⟨fun hmem => absurd hmem List.not_mem_nil,
          fun ⟨_, hi, _⟩ => absurd hi (Nat.not_lt_zero _)⟩
  | enclosed value width hbalanced _ hinner hrest =>
      exact hinner.enclosed hbalanced hrest value width

-- What balanced steps do, told by what is seen after the first so many of them.
structure LastInFirstOut (seen : List Step → Outcome (List (Option UInt16))) (steps : List Step) :
    Prop where
  -- no step fails, and each pull answers with the value of the push that it belongs to
  pulled : ∃ answers, (seen steps).answer = .ok answers ∧
    ∀ before width, before ++ [.pull width] <+: steps →
      (∃ value, LastOpen before value width) ∧
        ∀ value, LastOpen before value width →
          answers[before.length]? = some (some (width.truncate value))
  registers : (seen steps).registers = (seen []).registers
  unchanged : ∀ before width, before ++ [.pull width] <+: steps →
    (seen (before ++ [.pull width])).byte = (seen before).byte
  -- a word lies low byte first, from its push on and for as long as it is not pulled
  littleEndian : ∀ before value inner, before ++ .push value .word :: inner <+: steps →
    Balanced inner → ∀ first, first <+: inner →
      let r := (seen before).registers
      let byte := (seen (before ++ .push value .word :: first)).byte
      byte (cell r.emulation r.s 1) = Word.low value ∧
        byte (cell r.emulation r.s 0) = Word.high value
  -- the cells from S down are stored to, as many as the greatest depth, and no others change
  cells : ∃ depth : Nat, IsGreatest (depths steps) depth ∧
    let r := (seen []).registers
    (∀ i < depth, ∀ j < depth, i ≠ j → cell r.emulation r.s i ≠ cell r.emulation r.s j) ∧
      (∀ address, address ∈ ((seen steps).accesses.filter Access.isStore).map Access.address ↔
        ∃ i < depth, address = cell r.emulation r.s i) ∧
      ∀ address, (∀ i < depth, address ≠ cell r.emulation r.s i) →
        (seen steps).byte address = (seen []).byte address

section Law

variable {machine : Machine FlatMemory} {steps before inner : List Step} {value : UInt16}
  {width : Width} (hpage : PageHolds machine.registers.emulation machine.registers.s)
include hpage

theorem unchanged_flat (before : List Step) (width : Width) :
    (run (before ++ [.pull width]) machine).2.memory = (run before machine).2.memory := by
  obtain ⟨answers, s, memory, hbefore, -⟩ := run_flat before hpage
  obtain ⟨answer, s', memory', hpull, -⟩ := perform_flat (machine.withStack s memory) (.pull width)
  have hmemory := memory_pull_flat width (machine.withStack s memory)
  rw [hpull] at hmemory
  rw [run_append_of_ok hbefore (run_cons_of_ok hpull rfl), hbefore]
  exact hmemory

variable (hbalanced : Balanced steps) (hroom : deepest steps ≤ size machine.registers.emulation)
  (hinner : Balanced inner)
include hbalanced hroom hinner

-- Whatever has come before it, a push that is still open has its bytes on the stack, and S is back
-- at them when what lies above is closed.
theorem exists_run_open (hbegins : before ++ .push value width :: inner <+: steps) :
    ∃ answers s memory answers' memory',
      run before machine = (.ok answers, machine.withStack s memory) ∧
      PageHolds machine.registers.emulation s ∧
      run (before ++ .push value width :: inner) machine =
        (.ok answers',
          machine.withStack (below machine.registers.emulation s width.bytes) memory') ∧
      ∀ first, first <+: inner →
        (run (before ++ .push value width :: first) machine).2.memory.Holds
          machine.registers.emulation s 0 (width.encode value).reverse := by
  obtain ⟨answers, s, memory, hbefore, hreached⟩ := run_flat before hpage
  obtain ⟨⟨answers', memory', hreaches⟩, hlies⟩ :=
    @Settles.afterPush (machine.withStack s memory) inner hreached hinner.settles value width
      (Nat.le_trans (hbalanced.room_above hbegins) hroom)
  refine ⟨answers, s, memory, _, memory', hbefore, hreached,
    run_append_of_ok hbefore hreaches.run, fun first hfirst => ?_⟩
  rw [after_run_append hbefore]
  exact hlies first hfirst

theorem littleEndian_flat (hbegins : before ++ .push value .word :: inner <+: steps)
    {first : List Step} (hfirst : first <+: inner) :
    let r := (run before machine).2.registers
    let memory := (run (before ++ .push value .word :: first) machine).2.memory
    memory.byte (cell r.emulation r.s 1) = Word.low value ∧
      memory.byte (cell r.emulation r.s 0) = Word.high value := by
  obtain ⟨_, s, memory, _, _, hbefore, -, -, hlies⟩ :=
    exists_run_open hpage hbalanced hroom hinner hbegins
  obtain ⟨hhigh, hlow, -⟩ := hlies first hfirst
  rw [hbefore]
  exact ⟨hlow, hhigh⟩

theorem pulled_flat {answers : List (Option UInt16)} {after : Machine FlatMemory}
    (hrun : run steps machine = (.ok answers, after))
    (hbegins : before ++ .push value width :: inner ++ [.pull width] <+: steps) :
    answers[(before ++ .push value width :: inner).length]? =
      some (some (width.truncate value)) := by
  obtain ⟨_, s, _, _, memory, -, hreached, hopen, hlies⟩ :=
    exists_run_open hpage hbalanced hroom hinner ((List.prefix_append _ _).trans hbegins)
  have hholds := hlies inner (List.prefix_refl inner)
  rw [hopen] at hholds
  have hpull := @pull_flat_eq (machine.withStack s memory) value width hreached memory hholds
  obtain ⟨rest, rfl⟩ := hbegins
  rw [List.append_assoc] at hrun
  exact answer_of_run hrun hopen hpull

omit hinner in
theorem lastInFirstOut_flat :
    LastInFirstOut (fun steps => outcome FlatMemory.byte (run steps) machine) steps := by
  obtain ⟨answers, memory, hrun, hsame, hstores⟩ := hbalanced.settles machine hpage hroom
  constructor
  case pulled =>
      refine ⟨answers, congrArg Prod.fst hrun, fun before width hbegins =>
        ⟨hbalanced.exists_lastOpen hbegins, ?_⟩⟩
      rintro value ⟨earlier, inner, rfl, hinner⟩
      exact pulled_flat hpage hbalanced hroom hinner hrun hbegins
  case registers =>
      simp only [outcome, hrun, below_zero hpage]
      rfl
  case unchanged =>
      intro before width _
      exact congrArg FlatMemory.byte (unchanged_flat hpage before width)
  case littleEndian =>
      intro before value inner hbegins hinner first hfirst
      exact littleEndian_flat hpage hbalanced hroom hinner hbegins hfirst
  case cells =>
      have hdiffer (i : Nat) (hi : i < deepest steps) (j : Nat) (hj : j < deepest steps) :=
        @cell_ne _ machine.registers.s _ _ (Nat.lt_of_lt_of_le hi hroom)
          (Nat.lt_of_lt_of_le hj hroom)
      refine ⟨deepest steps, isGreatest_deepest steps, hdiffer, hstores, fun address hout => ?_⟩
      exact hsame steps (List.prefix_refl steps) address fun i _ hi => hout i hi

end Law

-- Steps that are paired like brackets find the stack to be one, as long as it has room for all that
-- is outstanding. It may wrap on the way.
theorem lastInFirstOut_of_balanced {byte : μ → Address → UInt8} (hremembers : Remembers byte)
    {machine : Machine μ} (hpage : PageHolds machine.registers.emulation machine.registers.s)
    {steps : List Step} (hbalanced : Balanced steps)
    (hroom : ∀ first, first <+: steps → outstanding first ≤ size machine.registers.emulation) :
    LastInFirstOut (fun steps => outcome byte (run steps) machine) steps := by
  have hdeepest : deepest steps ≤ size machine.registers.emulation := by
    obtain ⟨first, hfirst, hcount⟩ := (isGreatest_deepest steps).1
    have hle := hroom first hfirst
    omega
  have hflat : (fun steps => outcome byte (run steps) machine) =
      fun steps => outcome FlatMemory.byte (run steps) (machine.flattened byte) :=
    funext fun steps => hremembers.outcome_eq (fun lockstep => matched_run lockstep steps) machine
  rw [hflat]
  exact lastInFirstOut_flat hpage hbalanced hdeepest

theorem lastInFirstOut_of_balanced_wrapping :
    let machine : Machine FlatMemory := ⟨.powerOn, {}, ⟨fun _ => 0⟩, 0⟩
    let steps : List Step := [.push 0x1234 .word, .push 0xABCD .byte, .pull .byte, .pull .word]
    let seen (steps : List Step) := outcome FlatMemory.byte (run steps) machine
    PageHolds machine.registers.emulation machine.registers.s ∧ machine.registers.s = 0x0100 ∧
      Balanced steps ∧
      (∀ first, first <+: steps → outstanding first ≤ size machine.registers.emulation) ∧
      LastInFirstOut seen steps ∧
      (seen steps).answer = .ok [none, none, some 0x00CD, some 0x1234] ∧
      (seen steps).byte ⟨0, 0x0100⟩ = 0x12 ∧ (seen steps).byte ⟨0, 0x01FF⟩ = 0x34 ∧
      (seen steps).byte ⟨0, 0x01FE⟩ = 0xCD := by
  intro machine steps seen
  have hhigh : Word.high 0x0100 = 0x01 := by decide
  have hpage : PageHolds machine.registers.emulation machine.registers.s := fun _ => hhigh
  have hbalanced : Balanced steps := .enclosed 0x1234 .word (.enclosed 0xABCD .byte .nil .nil) .nil
  have hroom (first : List Step) (hfirst : first <+: steps) :
      outstanding first ≤ size machine.registers.emulation :=
    Int.le_trans (outstanding_le_deepest hfirst) (by decide)
  exact ⟨hpage, rfl, hbalanced, hroom,
    lastInFirstOut_of_balanced remembers_flat hpage hbalanced hroom, by decide +kernel⟩

end Stack

end Console816
