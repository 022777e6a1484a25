import Console816.Proofs.Processor.FlatRuns
import Console816.Proofs.Processor.StackPage

namespace Console816

-- What an entry saves and a return brings back: registers, and a flat memory. Pending interrupts
-- and cycles may be anything.
structure Context where
  registers : Registers
  memory : FlatMemory

def Machine.context (machine : Machine FlatMemory) : Context := ⟨machine.registers, machine.memory⟩

-- The ways into code that returns. BRK and COP raise their interrupts themselves.
inductive Entry where
  | interrupt (kind : Interrupt)
  | raise (kind : Interrupt)
  | call
  | callLong

namespace Entry

def isHandler : Entry → Bool
  | interrupt _ | raise _ => true
  | call | callLong => false

-- The instruction that leads back.
def returning : Entry → Action
  | interrupt _ | raise _ => .returnInterrupt
  | call => .returnNear
  | callLong => .returnLong

-- The bytes that an entry pushes, when `resume` is where it is to come back to.
def pushed (entry : Entry) (r : Registers) (resume : UInt16) : List UInt8 :=
  match entry with
  | interrupt kind | raise kind => Execution.handlerFrame kind r resume
  | call => [Word.high (resume - 1), Word.low (resume - 1)]
  | callLong => [r.k, Word.high (resume - 1), Word.low (resume - 1)]

-- How many bytes those are.
def size (entry : Entry) (emulation : Bool) : Nat :=
  match entry with
  | interrupt _ | raise _ => if emulation then 3 else 4
  | call => 2
  | callLong => 3

theorem length_pushed (entry : Entry) (r : Registers) (resume : UInt16) :
    (entry.pushed r resume).length = entry.size r.emulation := by
  cases entry with
  | interrupt | raise =>
      simp only [pushed, size, Execution.handlerFrame]
      split <;> rfl
  | call | callLong => rfl

-- The bank after the return from where the bank was `k`.
def bankAfter (entry : Entry) (r : Registers) (k : UInt8) : UInt8 :=
  match entry with
  | interrupt _ | raise _ => if r.emulation then k else r.k
  | call => k
  | callLong => r.k

end Entry

-- An instruction of the given action is fetched and runs to its end, with `next` after it.
def Dispatches (table : OpcodeTable) (action : Action) (before : Context) (next : UInt16)
    (after : Context) : Prop :=
  ∃ machine instruction fetched finished, machine.context = before ∧
    Execution.fetch table machine = (.ok instruction, fetched) ∧
    instruction.operation.mnemonic.action = action ∧
    next = before.registers.pc + (instruction.operation.size before.registers.p).toUInt16 ∧
    Execution.run instruction fetched = (.ok (), finished) ∧ finished.context = after

-- The two halves of a tick: an interrupt is taken, or an instruction runs. What is not an
-- instruction comes back to where the program was.
def Enters (table : OpcodeTable) (entry : Entry) (before : Context) (resume : UInt16)
    (after : Context) : Prop :=
  match entry with
  | .interrupt kind =>
    kind ≠ .reset ∧ resume = before.registers.pc ∧
      ∃ machine finished, machine.context = before ∧
        Execution.acknowledge machine = (.ok (some kind), finished) ∧ finished.context = after
  | .raise kind => kind ≠ .reset ∧ Dispatches table (.raise kind) before resume after
  | .call => Dispatches table .call before resume after
  | .callLong => Dispatches table .callLong before resume after

def Returns (table : OpcodeTable) (entry : Entry) (before after : Context) : Prop :=
  ∃ next, Dispatches table entry.returning before next after

-- Every tick that succeeds consists of them, unless the processor is halted after the first.
theorem halves_of_tick {table : OpcodeTable} {machine finished : Machine FlatMemory}
    (htick : Execution.tick table machine = (.ok (), finished)) :
    ∃ taken between, Execution.acknowledge machine = (.ok taken, between) ∧
      (taken = none → between.context = machine.context) ∧
      (between.interrupts.isHalted = true ∧ finished = between ∨
        ∃ action next, Dispatches table action between.context next finished.context) := by
  obtain ⟨taken, between, hacknowledge, hafter⟩ := Execution.of_bind_ok htick
  refine ⟨taken, between, hacknowledge, ?_, ?_⟩
  · rintro rfl
    obtain ⟨interrupts, ⟨-, rfl⟩ | ⟨kind, htaken, -⟩⟩ := Execution.acknowledge_cases hacknowledge
    · rfl
    · cases htaken
  · have hhalted : Execution.isHalted between = (.ok between.interrupts.isHalted, between) := rfl
    rw [Execution.bind_of_ok hhalted] at hafter
    cases hhalts : between.interrupts.isHalted with
    | true =>
        rw [hhalts] at hafter
        cases hafter
        exact .inl ⟨rfl, rfl⟩
    | false =>
        rw [hhalts] at hafter
        change (Execution.fetch table >>= Execution.run) between = _ at hafter
        obtain ⟨instruction, fetched, hfetch, hrun⟩ := Execution.of_bind_ok hafter
        exact .inr ⟨_, _, between, instruction, fetched, finished, rfl, hfetch, rfl, rfl, hrun, rfl⟩

-- An entry with its return.
structure Frame where
  entry : Entry
  before : Context
  resume : UInt16
  after : Context

-- Nothing but entries and their returns, with the stack bytes that they take at most and the
-- frames in the order of their returns.
inductive Nested (table : OpcodeTable) : Nat → Context → List Frame → Context → Prop
  | done (context : Context) : Nested table 0 context [] context
  | frame {entry : Entry} {before inside closing after last : Context} {resume : UInt16}
      {inner rest : Nat} {frames later : List Frame}
      (enters : Enters table entry before resume inside)
      (within : Nested table inner inside frames closing)
      (returns : Returns table entry closing after)
      (next : Nested table rest after later last) :
      Nested table (max (entry.size before.registers.emulation + inner) rest) before
        (frames ++ ⟨entry, before, resume, after⟩ :: later) last

-- After a return, everything is as it was before the entry, and the program goes on after it.
-- Emulation mode does not save the bank of an interrupted program.
structure Frame.Restored (frame : Frame) : Prop where
  registers : ∃ k, frame.after.registers =
    { frame.before.registers with pc := frame.resume, k }
  native : frame.before.registers.emulation = false →
    frame.after.registers.k = frame.before.registers.k
  long : frame.entry = .callLong → frame.after.registers.k = frame.before.registers.k
  handler : frame.before.registers.emulation = true → frame.entry.isHandler = true →
    frame.after.registers.k = 0

-- What is left of an instruction when it has been fetched.
theorem Dispatches.performed {table : OpcodeTable} {action : Action} {before after : Context}
    {next : UInt16} (hdispatches : Dispatches table action before next after) :
    ∃ instruction machine finished,
      machine.registers = { before.registers with pc := next } ∧
      machine.memory = before.memory ∧
      Execution.perform instruction action machine = (.ok (), finished) ∧
      finished.context = after := by
  obtain ⟨machine, instruction, fetched, finished, rfl, hfetch, rfl, rfl, hrun, hafter⟩ :=
    hdispatches
  obtain ⟨hmemory, hregisters⟩ := Execution.fetch_flat hfetch
  exact ⟨instruction, { fetched with cycles := fetched.cycles + _ }, finished, hregisters, hmemory,
    hrun, hafter⟩

theorem Dispatches.widthsAgree {table : OpcodeTable} {action : Action} {before after : Context}
    {next : UInt16} (hdispatches : Dispatches table action before next after)
    (hwidths : before.registers.WidthsAgree) : after.registers.WidthsAgree := by
  obtain ⟨machine, instruction, fetched, finished, rfl, hfetch, -, -, hrun, rfl⟩ := hdispatches
  have hbefore : machine.registers.WidthsAgree := hwidths
  have hfetched := Execution.widthsAgree_of_matched (Execution.lockstep_widths.fetch table) hbefore
  rw [hfetch] at hfetched
  have hfinished := Execution.widthsAgree_of_matched
    (Execution.lockstep_widths.run instruction) hfetched
  rw [hrun] at hfinished
  exact hfinished

-- What an entry does to the context.
structure Opened (entry : Entry) (before : Context) (resume : UInt16) (inside : Context) :
    Prop where
  memory : inside.memory = before.memory.push before.registers.emulation before.registers.s 0
    (entry.pushed before.registers resume)
  registers : ∃ p k pc, inside.registers =
    { before.registers with
      s := Stack.below before.registers.emulation before.registers.s
        (entry.pushed before.registers resume).length
      p, k, pc }
  status : entry.isHandler = false → inside.registers.p = before.registers.p
  handler : entry.isHandler = true → inside.registers.k = 0
  near : entry = .call → inside.registers.k = before.registers.k
  widths : inside.registers.WidthsAgree

theorem opened_of_interrupt {kind : Interrupt} {before inside : Context} (hkind : kind ≠ .reset)
    (hwidths : before.registers.WidthsAgree) {machine finished : Machine FlatMemory}
    (hbefore : machine.context = before)
    (hacknowledge : Execution.acknowledge machine = (.ok (some kind), finished))
    (hinside : finished.context = inside) :
    Opened (.interrupt kind) before before.registers.pc inside := by
  subst hbefore hinside
  have hafter := Execution.widthsAgree_of_matched Execution.lockstep_widths.acknowledge hwidths
  rw [hacknowledge] at hafter
  obtain ⟨interrupts, ⟨htaken, -⟩ | ⟨taken, htaken, hentered⟩⟩ :=
    Execution.acknowledge_cases hacknowledge
  · cases htaken
  · cases htaken
    obtain ⟨p, pc, cycles, hflat⟩ :=
      Execution.enter_flat hkind { machine with interrupts } hwidths
    obtain rfl := congrArg Prod.snd (hflat.symm.trans hentered)
    exact ⟨rfl, ⟨p, 0, pc, rfl⟩, nofun, fun _ => rfl, nofun, hafter⟩

section Instruction

variable {table : OpcodeTable} {before inside : Context} {resume : UInt16}
  (hwidths : before.registers.WidthsAgree)
include hwidths

theorem opened_of_raise {kind : Interrupt} (hkind : kind ≠ .reset)
    (hdispatches : Dispatches table (.raise kind) before resume inside) :
    Opened (.raise kind) before resume inside := by
  have hinside := hdispatches.widthsAgree hwidths
  obtain ⟨instruction, ⟨_, interrupts, _, cycles⟩, finished, rfl, rfl, hperform, rfl⟩ :=
    hdispatches.performed
  let fetched : Machine FlatMemory :=
    ⟨{ before.registers with pc := resume }, interrupts, before.memory, cycles⟩
  have hfetched : fetched.registers.WidthsAgree := { hwidths with }
  obtain ⟨p, pc, cycles', hentered⟩ := Execution.enter_flat hkind fetched hfetched
  obtain rfl : _ = finished := congrArg Prod.snd (hentered.symm.trans hperform)
  exact ⟨rfl, ⟨p, 0, pc, rfl⟩, nofun, fun _ => rfl, nofun, hinside⟩

-- After the push, a call is a jump.
theorem opened_of_call (hdispatches : Dispatches table .call before resume inside) :
    Opened .call before resume inside := by
  have hinside := hdispatches.widthsAgree hwidths
  obtain ⟨instruction, ⟨_, interrupts, _, cycles⟩, finished, rfl, rfl, hperform, rfl⟩ :=
    hdispatches.performed
  let fetched : Machine FlatMemory :=
    ⟨{ before.registers with pc := resume }, interrupts, before.memory, cycles⟩
  have hfetched : fetched.registers.WidthsAgree := { hwidths with }
  have hcall := Execution.call_flat instruction fetched
  rw [Machine.push_eq hfetched] at hcall
  obtain ⟨hmemory, pc, hregisters⟩ := Execution.jump_flat (hcall.symm.trans hperform)
  have hp : finished.registers.p = before.registers.p := by rw [hregisters]
  have hk : finished.registers.k = before.registers.k := by rw [hregisters]
  exact ⟨hmemory, ⟨_, _, pc, hregisters⟩, fun _ => hp, nofun, fun _ => hk, hinside⟩

theorem opened_of_callLong (hdispatches : Dispatches table .callLong before resume inside) :
    Opened .callLong before resume inside := by
  have hinside := hdispatches.widthsAgree hwidths
  obtain ⟨instruction, ⟨_, interrupts, _, cycles⟩, finished, rfl, rfl, hperform, rfl⟩ :=
    hdispatches.performed
  let fetched : Machine FlatMemory :=
    ⟨{ before.registers with pc := resume }, interrupts, before.memory, cycles⟩
  have hfetched : fetched.registers.WidthsAgree := { hwidths with }
  have hcall := Execution.callLong_flat instruction fetched
  rw [Machine.push_eq hfetched] at hcall
  obtain ⟨hmemory, k, pc, hregisters⟩ := Execution.jumpLong_flat (hcall.symm.trans hperform)
  have hp : finished.registers.p = before.registers.p := by rw [hregisters]
  exact ⟨hmemory, ⟨_, k, pc, hregisters⟩, fun _ => hp, nofun, nofun, hinside⟩

theorem opened_of_enters {entry : Entry} (henters : Enters table entry before resume inside) :
    Opened entry before resume inside := by
  cases entry with
  | interrupt kind =>
      obtain ⟨hkind, rfl, machine, finished, hbefore, hacknowledge, hinside⟩ := henters
      exact opened_of_interrupt hkind hwidths hbefore hacknowledge hinside
  | raise kind => exact opened_of_raise hwidths henters.1 henters.2
  | call => exact opened_of_call hwidths henters
  | callLong => exact opened_of_callLong hwidths henters

end Instruction

-- What a return does when its entry left a frame on the stack that is still there.
theorem restored_of_returns {table : OpcodeTable} {entry : Entry} {r : Registers}
    {closing after : Context} {resume : UInt16} {p : Status} {k : UInt8} {pc : UInt16}
    (hwidths : r.WidthsAgree) (hreturns : Returns table entry closing after)
    (hregisters : closing.registers =
      { r with s := Stack.below r.emulation r.s (entry.pushed r resume).length, p, k, pc })
    (hstatus : entry.isHandler = false → p = r.p)
    (hholds : closing.memory.Holds r.emulation r.s 0 (entry.pushed r resume)) :
    after.memory = closing.memory ∧
      after.registers = { r with pc := resume, k := entry.bankAfter r k } := by
  obtain ⟨next, hdispatches⟩ := hreturns
  obtain ⟨instruction, ⟨_, interrupts, _, cycles⟩, finished, rfl, rfl, hperform, rfl⟩ :=
    hdispatches.performed
  have htop := Stack.below_zero hwidths.page
  have hnext : resume - 1 + 1 = resume := UInt16.sub_add_cancel resume 1
  rw [hregisters] at hperform
  cases entry with
  | interrupt kind | raise kind =>
      obtain ⟨cycles', hreturned⟩ := Execution.returnInterrupt_handlerFrame
        ⟨_, interrupts, closing.memory, cycles⟩ hwidths rfl hholds
      obtain rfl := congrArg Prod.snd (hreturned.symm.trans hperform)
      exact ⟨rfl, rfl⟩
  | call =>
      obtain rfl : p = r.p := hstatus rfl
      have hreturned := (Execution.returnNear_flat (s := r.s) rfl hholds).symm.trans hperform
      obtain rfl := congrArg Prod.snd hreturned
      refine ⟨rfl, ?_⟩
      simp only [Machine.context, htop, Word.join_low_high, hnext]
      rfl
  | callLong =>
      obtain rfl : p = r.p := hstatus rfl
      have hreturned := (Execution.returnLong_flat (s := r.s) rfl hholds).symm.trans hperform
      obtain rfl := congrArg Prod.snd hreturned
      refine ⟨rfl, ?_⟩
      simp only [Machine.context, htop, Word.join_low_high, hnext]
      rfl

-- What nested frames keep, when they take `depth` bytes of stack at most.
structure Kept (depth : Nat) (before after : Context) : Prop where
  registers : ∃ k pc, after.registers = { before.registers with k, pc }
  memory : before.memory.SameOutside after.memory before.registers.emulation before.registers.s
    0 depth
  native : before.registers.emulation = false → after.registers.k = before.registers.k
  bankZero : before.registers.emulation = true → before.registers.k = 0 → after.registers.k = 0

namespace Kept

variable {depth more : Nat} {before middle after : Context}

theorem refl (context : Context) : Kept 0 context context where
  registers := ⟨_, _, rfl⟩
  memory := .refl _ _ _
  native _ := rfl
  bankZero _ hzero := hzero

theorem emulation (hkept : Kept depth before after) :
    after.registers.emulation = before.registers.emulation := by
  obtain ⟨k, pc, hafter⟩ := hkept.registers
  rw [hafter]

theorem trans (hfirst : Kept depth before middle) (hsecond : Kept more middle after) :
    Kept (max depth more) before after := by
  obtain ⟨k, pc, hmiddle⟩ := hfirst.registers
  obtain ⟨k', pc', hafter⟩ := hsecond.registers
  have hem := hfirst.emulation
  have hs : middle.registers.s = before.registers.s := by rw [hmiddle]
  have hmemory := hsecond.memory
  rw [hem, hs] at hmemory
  exact {
    registers := ⟨k', pc', by rw [hafter, hmiddle]⟩
    memory := (hfirst.memory.mono (Nat.le_refl _) (Nat.le_max_left _ _)).trans
      (hmemory.mono (Nat.le_refl _) (Nat.le_max_right _ _))
    native := fun hnative =>
      (hsecond.native (hem.trans hnative)).trans (hfirst.native hnative)
    bankZero := fun hemulation hzero =>
      hsecond.bankZero (hem.trans hemulation) (hfirst.bankZero hemulation hzero) }

theorem widthsAgree (hkept : Kept depth before after) (hwidths : before.registers.WidthsAgree) :
    after.registers.WidthsAgree := by
  obtain ⟨k, pc, hafter⟩ := hkept.registers
  rw [hafter]
  exact { hwidths with }

end Kept

section Frame

variable {table : OpcodeTable} {entry : Entry} {before inside closing after : Context}
  {resume : UInt16} {inner : Nat}

theorem Opened.emulation (hopened : Opened entry before resume inside) :
    inside.registers.emulation = before.registers.emulation := by
  obtain ⟨p, k, pc, hinside⟩ := hopened.registers
  rw [hinside]

theorem Opened.bankAfter_native (hopened : Opened entry before resume inside)
    (hkept : Kept inner inside closing) (hnative : before.registers.emulation = false) :
    entry.bankAfter before.registers closing.registers.k = before.registers.k := by
  cases entry with
  | interrupt | raise => simp only [Entry.bankAfter, hnative, Bool.false_eq_true, if_false]
  | call => exact (hkept.native (hopened.emulation.trans hnative)).trans (hopened.near rfl)
  | callLong => rfl

-- Handlers run in bank 0, where their own frames leave them.
theorem Opened.bankAfter_emulation (hopened : Opened entry before resume inside)
    (hkept : Kept inner inside closing) (hemulation : before.registers.emulation = true)
    (hzero : entry.isHandler = true ∨ before.registers.k = 0) :
    entry.bankAfter before.registers closing.registers.k = 0 := by
  have hstays := hkept.bankZero (hopened.emulation.trans hemulation)
  cases entry with
  | interrupt | raise =>
      simp only [Entry.bankAfter, hemulation, if_true]
      exact hstays (hopened.handler rfl)
  | call => exact hstays ((hopened.near rfl).trans (hzero.resolve_left nofun))
  | callLong => exact hzero.resolve_left nofun

-- What is pushed inside lies in the cells after those of the frame.
theorem Opened.below (hopened : Opened entry before resume inside)
    (hkept : Kept inner inside closing) :
    inside.memory.SameOutside closing.memory before.registers.emulation before.registers.s
      (entry.size before.registers.emulation)
      (entry.size before.registers.emulation + inner) := by
  obtain ⟨p, k, pc, hinside⟩ := hopened.registers
  have hinner := hkept.memory
  rw [hopened.emulation, hinside, entry.length_pushed] at hinner
  exact hinner.of_below

-- So the bytes of the frame are still there for the return.
theorem Opened.holds (hopened : Opened entry before resume inside)
    (hkept : Kept inner inside closing)
    (hroom : entry.size before.registers.emulation + inner ≤
      Stack.size before.registers.emulation) :
    closing.memory.Holds before.registers.emulation before.registers.s 0
      (entry.pushed before.registers resume) := by
  have hlength := entry.length_pushed before.registers resume
  have hpushed : inside.memory.Holds before.registers.emulation before.registers.s 0
      (entry.pushed before.registers resume) := by
    rw [hopened.memory]
    exact FlatMemory.holds_push _ 0 _ (by omega)
  exact hpushed.of_sameOutside (hopened.below hkept) (by omega) hroom

theorem Opened.sameOutside (hopened : Opened entry before resume inside)
    (hkept : Kept inner inside closing) :
    before.memory.SameOutside closing.memory before.registers.emulation before.registers.s 0
      (entry.size before.registers.emulation + inner) := by
  have hlength := entry.length_pushed before.registers resume
  have hframe : before.memory.SameOutside inside.memory before.registers.emulation
      before.registers.s 0 (0 + (entry.pushed before.registers resume).length) := by
    rw [hopened.memory]
    exact FlatMemory.sameOutside_push _ 0 _
  exact (hframe.mono (Nat.le_refl 0) (by omega)).trans
    ((hopened.below hkept).mono (Nat.zero_le _) (Nat.le_refl _))

-- One frame, around whatever is kept inside it.
theorem Opened.closed (hopened : Opened entry before resume inside)
    (hwidths : before.registers.WidthsAgree) (hkept : Kept inner inside closing)
    (hroom : entry.size before.registers.emulation + inner ≤
      Stack.size before.registers.emulation)
    (hreturns : Returns table entry closing after) :
    Kept (entry.size before.registers.emulation + inner) before after ∧
      Frame.Restored ⟨entry, before, resume, after⟩ := by
  obtain ⟨p, k, pc, hinside⟩ := hopened.registers
  obtain ⟨k', pc', hclosing⟩ := hkept.registers
  have hp : inside.registers.p = p := by rw [hinside]
  have hk : closing.registers.k = k' := by rw [hclosing]
  obtain ⟨hmemory, hafter⟩ := restored_of_returns hwidths hreturns
    (hclosing.trans (by rw [hinside])) (fun hcall => hp ▸ hopened.status hcall)
    (hopened.holds hkept hroom)
  rw [← hk] at hafter
  have hbank := congrArg Registers.k hafter
  have hnative := fun hem => hbank.trans (hopened.bankAfter_native hkept hem)
  have hzero := fun hem hzero => hbank.trans (hopened.bankAfter_emulation hkept hem hzero)
  constructor
  · exact {
      registers := ⟨_, _, hafter⟩
      memory := hmemory ▸ hopened.sameOutside hkept
      native := hnative
      bankZero := fun hem hbefore => hzero hem (.inr hbefore) }
  · exact {
      registers := ⟨_, hafter⟩
      native := hnative
      long := fun hlong => by
        obtain rfl : entry = .callLong := hlong
        exact hbank
      handler := fun hem hhandler => hzero hem (.inl hhandler) }

end Frame

-- By induction on the frames. A frame is around those inside it, and the ones after it start where
-- it left off.
theorem kept_of_nested {table : OpcodeTable} {depth : Nat} {before last : Context}
    {frames : List Frame} (hwidths : before.registers.WidthsAgree)
    (hnested : Nested table depth before frames last)
    (hroom : depth ≤ Stack.size before.registers.emulation) :
    Kept depth before last ∧ ∀ frame ∈ frames, frame.Restored := by
  induction hnested with
  | done context => exact ⟨.refl context, fun _ hmem => absurd hmem List.not_mem_nil⟩
  | frame henters _ hreturns _ ihwithin ihnext =>
      have hopened := opened_of_enters hwidths henters
      have hem := hopened.emulation
      obtain ⟨hinside, hframes⟩ := ihwithin hopened.widths (by rw [hem]; omega)
      obtain ⟨hkept, hrestored⟩ := hopened.closed hwidths hinside (by omega) hreturns
      obtain ⟨hrest, hlater⟩ := ihnext (hkept.widthsAgree hwidths)
        (by rw [hkept.emulation]; omega)
      refine ⟨hkept.trans hrest, fun frame hmem => ?_⟩
      rcases List.mem_append.mp hmem with hmem | hmem
      · exact hframes frame hmem
      · rcases List.mem_cons.mp hmem with rfl | hmem
        · exact hrestored
        · exact hlater frame hmem

namespace Context

-- A machine for which some interrupts are pending.
def machine (context : Context) (interrupts : InterruptState) : Machine FlatMemory :=
  ⟨context.registers, interrupts, context.memory, 0⟩

-- After the next instruction.
def executed (table : OpcodeTable) (context : Context) : Context :=
  (Execution.tick table (context.machine {})).2.context

-- After the entry into the handler of an interrupt.
def interrupted (kind : Interrupt) (context : Context) : Context :=
  (Execution.acknowledge (context.machine (InterruptState.request {} kind))).2.context

-- What the next instruction is.
def Faces (table : OpcodeTable) (context : Context) (operation : Operation) : Prop :=
  table.get? (context.memory.byte ⟨context.registers.k, context.registers.pc⟩) = some operation

instance (table : OpcodeTable) (context : Context) (operation : Operation) :
    Decidable (context.Faces table operation) :=
  inferInstanceAs (Decidable (_ = _))

-- Where the program goes on after it.
def next (context : Context) (operation : Operation) : UInt16 :=
  context.registers.pc + (operation.size context.registers.p).toUInt16

-- A tick runs it when no interrupt is pending.
theorem tick_machine (table : OpcodeTable) (context : Context) :
    Execution.tick table (context.machine {}) =
      (Execution.fetch table >>= Execution.run) (context.machine {}) := by
  have hpoll (irqDisabled : Bool) : InterruptState.poll {} irqDisabled = (none, {}) := by
    cases irqDisabled <;> decide
  rw [Execution.tick, Execution.bind_of_ok (Execution.acknowledge_none (hpoll _))]
  rfl

end Context

-- Where an entry can be made at once. An IRQ may be masked.
def Entry.Ready (table : OpcodeTable) (entry : Entry) (before : Context) : Prop :=
  match entry with
  | interrupt kind =>
    kind ≠ .reset ∧ (kind = .irq → before.registers.p.has .irqDisable = false)
  | raise kind =>
    kind ≠ .reset ∧ ∃ operation, before.Faces table operation ∧
      operation.mnemonic.action = .raise kind
  | call => ∃ operation, before.Faces table operation ∧ operation.mnemonic.action = .call
  | callLong => ∃ operation, before.Faces table operation ∧ operation.mnemonic.action = .callLong

theorem dispatches_of_faces {context : Context} (operation : Operation)
    (hfaces : context.Faces .standard operation)
    (hframe : operation.mnemonic.action.isFrame = true) :
    Dispatches .standard operation.mnemonic.action context (context.next operation)
      (context.executed .standard) := by
  obtain ⟨instruction, fetched, hfetch, rfl, htarget⟩ :=
    Execution.fetch_of_get (context.machine {}) hfaces
  have hcalls hcall := htarget (OpcodeTable.isCallTarget_of_isCall hfaces hcall)
  have hrun : Execution.Succeeds (Execution.run instruction) :=
    (Execution.Succeeds.charge _).bind fun _ => Execution.perform_frame hframe hcalls
  obtain ⟨_, finished, hfinished, -⟩ := hrun fetched
  have htick : Execution.tick .standard (context.machine {}) = (.ok (), finished) := by
    rw [context.tick_machine, Execution.bind_of_ok hfetch, hfinished]
  exact ⟨context.machine {}, instruction, fetched, finished, rfl, hfetch, rfl, rfl, hfinished,
    congrArg (·.2.context) htick.symm⟩

-- An interrupt that is alone is taken, unless it is a masked IRQ.
theorem InterruptState.poll_request {kind : Interrupt} {irqDisabled : Bool}
    (hirq : kind = .irq → irqDisabled = false) :
    ((request {} kind).poll irqDisabled).1 = some kind := by
  cases kind with
  | irq =>
      rw [hirq rfl]
      decide
  | _ => cases irqDisabled <;> decide

theorem enters_interrupted {table : OpcodeTable} {kind : Interrupt} {before : Context}
    (hready : (Entry.interrupt kind).Ready table before) :
    Enters table (.interrupt kind) before before.registers.pc (before.interrupted kind) := by
  obtain ⟨hkind, hirq⟩ := hready
  let machine := before.machine (InterruptState.request {} kind)
  have htaken := InterruptState.poll_request hirq
  rcases hpoll : machine.interrupts.poll (machine.registers.p.has .irqDisable) with
    ⟨taken, interrupts⟩
  obtain rfl : taken = some kind := (congrArg Prod.fst hpoll).symm.trans htaken
  obtain ⟨_, finished, hentered, -⟩ :=
    Execution.Succeeds.enter kind { machine with interrupts }
  have hacknowledge : Execution.acknowledge machine = (.ok (some kind), finished) := by
    rw [Execution.acknowledge_some hpoll, hentered]
    rfl
  exact ⟨hkind, rfl, machine, finished, rfl, hacknowledge,
    congrArg (·.2.context) hacknowledge.symm⟩

theorem enters_of_ready {entry : Entry} {before : Context}
    (hready : entry.Ready .standard before) :
    ∃ resume inside, Enters .standard entry before resume inside := by
  cases entry with
  | interrupt kind => exact ⟨_, _, enters_interrupted hready⟩
  | raise kind =>
      obtain ⟨hkind, operation, hfaces, haction⟩ := hready
      have hdispatches := dispatches_of_faces operation hfaces (by rw [haction]; rfl)
      rw [haction] at hdispatches
      exact ⟨_, _, hkind, hdispatches⟩
  | call | callLong =>
      obtain ⟨operation, hfaces, haction⟩ := hready
      have hdispatches := dispatches_of_faces operation hfaces (by rw [haction]; rfl)
      rw [haction] at hdispatches
      exact ⟨_, _, hdispatches⟩

theorem returns_of_faces {entry : Entry} {closing : Context} (operation : Operation)
    (hfaces : closing.Faces .standard operation)
    (haction : operation.mnemonic.action = entry.returning) :
    Returns .standard entry closing (closing.executed .standard) := by
  have hframe : operation.mnemonic.action.isFrame = true := by
    rw [haction]
    cases entry <;> rfl
  exact ⟨_, haction ▸ dispatches_of_faces operation hfaces hframe⟩

-- However frames are nested, every return restores what its entry has saved, for as long as they
-- fit the stack together. And no entry or return fails.
theorem restored_of_nested :
    (∀ {table : OpcodeTable} {depth : Nat} {before last : Context} {frames : List Frame},
      before.registers.WidthsAgree → Nested table depth before frames last →
        depth ≤ Stack.size before.registers.emulation → ∀ frame ∈ frames, frame.Restored) ∧
    (∀ {entry : Entry} {before : Context}, entry.Ready .standard before →
      ∃ resume inside, Enters .standard entry before resume inside) ∧
    (∀ {entry : Entry} {closing : Context} {operation : Operation},
      closing.Faces .standard operation → operation.mnemonic.action = entry.returning →
        ∃ after, Returns .standard entry closing after) :=
  ⟨fun hwidths hnested hroom => (kept_of_nested hwidths hnested hroom).2, enters_of_ready,
    fun hfaces haction => ⟨_, returns_of_faces _ hfaces haction⟩⟩

-- A program that calls a subroutine, and a handler for NMI.
def Context.interruptedCall : Context where
  registers := { Registers.powerOn with pc := 0x8000 }
  memory.byte address :=
    match address.offset with
    | 0x8000 => 0x20
    | 0x8002 => 0x90
    | 0x9000 => 0x60
    | 0xFFFB => 0xA0
    | 0xA000 => 0x40
    | _ => 0

-- The interrupt comes inside the subroutine, and the stack wraps inside page 1.
theorem restored_of_nested_interruptedCall :
    ∃ frames last, Nested .standard 5 .interruptedCall frames last ∧
      frames.map Frame.resume = [0x9000, 0x8003] ∧ ∀ frame ∈ frames, frame.Restored := by
  let subroutine := Context.interruptedCall.executed .standard
  let handler := subroutine.interrupted .nmi
  let returned := handler.executed .standard
  have hcall : Enters .standard .call .interruptedCall 0x8003 subroutine :=
    dispatches_of_faces ⟨0x20, .jsr, .absolute, 6⟩ (by decide +kernel) rfl
  have hnmi : Enters .standard (.interrupt .nmi) subroutine subroutine.registers.pc handler :=
    enters_interrupted ⟨by decide, nofun⟩
  have hrti : Returns .standard (.interrupt .nmi) handler returned :=
    returns_of_faces ⟨0x40, .rti, .implied, 6⟩ (by decide +kernel) rfl
  have hrts : Returns .standard .call returned (returned.executed .standard) :=
    returns_of_faces ⟨0x60, .rts, .implied, 6⟩ (by decide +kernel) rfl
  have hem : subroutine.registers.emulation = true := by decide +kernel
  have hresume : subroutine.registers.pc = 0x9000 := by decide +kernel
  have hwithin := Nested.frame hnmi (.done handler) hrti (.done returned)
  rw [hem, hresume] at hwithin
  have hnested : Nested .standard 5 .interruptedCall _ _ := .frame hcall hwithin hrts (.done _)
  have hwidths : Context.interruptedCall.registers.WidthsAgree :=
    { Registers.widthsAgree_powerOn with }
  exact ⟨_, _, hnested, rfl, restored_of_nested.1 hwidths hnested (by decide)⟩

end Console816
