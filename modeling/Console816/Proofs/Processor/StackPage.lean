import Console816.Memory.AccessLog
import Console816.Proofs.Processor.Lockstep
import Console816.Proofs.Registers.Widths

namespace Console816

namespace Access

def isStore : Access → Bool
  | store .. => true
  | load .. => false

end Access

-- From 00:0100 to 00:01FF.
def Address.InPageOne (address : Address) : Prop :=
  address.bank = 0 ∧ 0x0100 ≤ address.offset ∧ address.offset ≤ 0x01FF

-- Which accesses of an instruction push or pull a byte. Instructions that push store nothing
-- else, and instructions that pull load nothing else.
def Action.isStackAccess : Action → Access → Bool
  | push _ | pushAddress | call | callLong | raise _ => Access.isStore
  | pull _ | returnNear | returnLong | returnInterrupt => fun access => !access.isStore
  | _ => fun _ => false

namespace Registers

def StackInPageOne (r : Registers) : Prop := r.emulation = true ∧ Word.high r.s = 0x01

theorem StackInPageOne.cell {r : Registers} (h : r.StackInPageOne) :
    Address.InPageOne ⟨0, r.s⟩ :=
  ⟨rfl, Word.pageOne_of_high h.2⟩

theorem StackInPageOne.stackDown {r : Registers} (h : r.StackInPageOne) :
    r.stackDown.StackInPageOne := by
  refine ⟨h.1, ?_⟩
  simp only [Registers.stackDown, if_pos h.1]
  exact Word.high_pageOne _

theorem StackInPageOne.stackUp {r : Registers} (h : r.StackInPageOne) :
    r.stackUp.StackInPageOne := by
  refine ⟨h.1, ?_⟩
  simp only [Registers.stackUp, if_pos h.1]
  exact Word.high_pageOne _

-- A new status moves no stack.
theorem setStatus_emulation (r : Registers) (p : Status) :
    (r.setStatus p).emulation = r.emulation := by
  simp only [setStatus, apply_ite Registers.emulation, ite_self]

theorem setStatus_s (r : Registers) (p : Status) : (r.setStatus p).s = r.s := by
  simp only [setStatus, apply_ite Registers.s, ite_self]

theorem StackInPageOne.setStatus {r : Registers} (h : r.StackInPageOne) (p : Status) :
    (r.setStatus p).StackInPageOne := by
  rw [StackInPageOne, setStatus_emulation, setStatus_s]
  exact h

theorem StackInPageOne.assignPulled {r : Registers} (h : r.StackInPageOne) (value : UInt16)
    (target : Pulled) : (r.assignPulled value target).StackInPageOne := by
  cases target with
  | data register => cases register <;> exact h
  | direct | dataBank => exact h
  | status => exact h.setStatus _

end Registers

-- The same machine before anything has been written down, and without what has been.

def Machine.logged {μ : Type} (machine : Machine μ) : Machine (AccessLog μ) :=
  { machine with memory := ⟨machine.memory, #[]⟩ }

def Machine.unlogged {μ : Type} (machine : Machine (AccessLog μ)) : Machine μ :=
  { machine with memory := machine.memory.memory }

namespace Execution

variable {μ α : Type} [Memory μ]

-- The accesses that a piece of work makes.
def accesses (work : Execution (AccessLog μ) α) (machine : Machine μ) : List Access :=
  match machine with
  | ⟨registers, interrupts, memory, cycles⟩ =>
    (work ⟨registers, interrupts, ⟨memory, #[]⟩, cycles⟩).2.memory.accesses.toList

-- The stack bytes of an entry into a handler, which pushes all that it stores.
def entryStackBytes (entry : Execution (AccessLog μ) α) (machine : Machine μ) : List Access :=
  if machine.registers.emulation then (accesses entry machine).filter Access.isStore else []

def instructionStackBytes (instruction : Instruction) (machine : Machine μ) : List Access :=
  if machine.registers.emulation then
    (accesses (run instruction) machine).filter
      instruction.operation.mnemonic.action.isStackAccess
  else []

-- The stack bytes that a tick pushes and pulls in emulation mode.
def tickStackBytes (table : OpcodeTable) (machine : Machine μ) : List Access :=
  entryStackBytes acknowledge machine ++
    match acknowledge machine with
    | (.error _, _) => []
    | (.ok _, entered) =>
      if entered.interrupts.isHalted then []
      else
        match fetch table entered with
        | (.error _, _) => []
        | (.ok instruction, fetched) => instructionStackBytes instruction fetched

section PageOne

variable {counts : Access → Bool}

-- The same log on both sides, with everything that counts in page 1.
def PageOneLog (counts : Access → Bool) (log other : AccessLog μ) : Prop :=
  log = other ∧
    ∀ access ∈ log.accesses, counts access = true → access.address.InPageOne

-- The work keeps the stack and the accesses that count in page 1.
def StaysInPageOne (counts : Access → Bool) (work : Execution (AccessLog μ) α) : Prop :=
  Matched (Alike Registers.StackInPageOne (PageOneLog counts)) work work

omit [Memory μ] in
theorem PageOneLog.push {log : AccessLog μ} {memory : μ} {access : Access}
    (hlog : PageOneLog counts log log) (haccess : counts access = true → access.address.InPageOne) :
    PageOneLog counts ⟨memory, log.accesses.push access⟩ ⟨memory, log.accesses.push access⟩ := by
  refine ⟨rfl, fun made hmade hcounts => ?_⟩
  rcases Array.mem_push.mp hmade with hmade | rfl
  · exact hlog.2 made hmade hcounts
  · exact haccess hcounts

namespace StaysInPageOne

theorem loadByte {address : Address}
    (haddress : ∀ result, counts (.load address result) = true → address.InPageOne) :
    StaysInPageOne counts (loadByte address : Execution (AccessLog μ) UInt8) := by
  refine Matched.loadByte fun {log other} hlog => ?_
  obtain rfl := hlog.1
  exact ⟨rfl, hlog.push (haddress _)⟩

theorem storeByte {address : Address} (value : UInt8) (haddress : address.InPageOne) :
    StaysInPageOne counts (storeByte address value : Execution (AccessLog μ) Unit) := by
  refine Matched.storeByte fun {log other} hlog => ?_
  obtain rfl := hlog.1
  exact ⟨rfl, hlog.push fun _ => haddress⟩

theorem pushByte (value : UInt8) :
    StaysInPageOne counts (pushByte value : Execution (AccessLog μ) Unit) :=
  Matched.registers_bind fun _ hstack => (storeByte value hstack.cell).bind fun _ =>
    .modifyRegisters fun _ hstack => hstack.stackDown

theorem pushWord (value : UInt16) :
    StaysInPageOne counts (pushWord value : Execution (AccessLog μ) Unit) :=
  (pushByte _).bind fun _ => pushByte _

theorem pushWide (value : UInt16) (width : Width) :
    StaysInPageOne counts (pushWide value width : Execution (AccessLog μ) Unit) := by
  cases width with
  | byte => exact pushByte _
  | word => exact pushWord _

theorem pullByte : StaysInPageOne counts (pullByte : Execution (AccessLog μ) UInt8) :=
  (Matched.modifyRegisters fun _ hstack => hstack.stackUp).bind fun _ =>
    Matched.registers_bind fun _ hstack => loadByte fun _ _ => hstack.cell

theorem pullWord : StaysInPageOne counts (pullWord : Execution (AccessLog μ) UInt16) :=
  pullByte.bind fun _ => pullByte.bind fun _ => .pure _

theorem pullWide (width : Width) :
    StaysInPageOne counts (pullWide width : Execution (AccessLog μ) UInt16) := by
  cases width with
  | byte => exact pullByte.bind fun _ => .pure _
  | word => exact pullWord

-- Work that pushes. Its loads do not count.

theorem loadsAlike_stores : LoadsAlike (μ := AccessLog μ) (PageOneLog Access.isStore) where
  loaded address log other hlog := by
    obtain rfl := hlog.1
    exact ⟨rfl, hlog.push nofun⟩

theorem enterReset : StaysInPageOne Access.isStore (enterReset : Execution (AccessLog μ) Unit) := by
  have hreset (r : Registers) : r.reset.StackInPageOne :=
    ⟨rfl, by simp only [Registers.reset]; decide⟩
  exact loadsAlike_stores.enterReset (fun r _ => hreset r) fun _ _ hstack => hstack

theorem enterHandler (interrupt : Interrupt) :
    StaysInPageOne Access.isStore (enterHandler interrupt : Execution (AccessLog μ) Unit) := by
  refine Matched.registers_bind fun r hstack => ?_
  simp only [hstack.1, if_true]
  refine (pushWord r.pc).bind fun _ => (pushByte _).bind fun _ =>
    (Matched.modifyRegisters ?_).bind fun _ =>
    (loadsAlike_stores.loadVector (fun _ _ hstack => hstack) interrupt true).bind fun _ =>
    .charge 7
  exact fun _ hstack => hstack

theorem enter (interrupt : Interrupt) :
    StaysInPageOne Access.isStore (enter interrupt : Execution (AccessLog μ) Unit) := by
  cases interrupt with
  | reset => exact enterReset
  | nmi | abort | irq | brk | cop => exact enterHandler _

theorem acknowledge :
    StaysInPageOne Access.isStore (acknowledge : Execution (AccessLog μ) (Option Interrupt)) := by
  refine Matched.registers.bind fun _ => (Matched.poll _).bind fun taken => ?_
  cases taken with
  | none => exact .pure none
  | some interrupt => exact (enter interrupt).bind fun _ => .pure _

theorem push (source : Pushed) :
    StaysInPageOne counts (push source : Execution (AccessLog μ) Unit) := by
  refine Matched.registers.bind fun _ => (pushWide _ _).bind fun _ => ?_
  cases source with
  | data => exact .charge _
  | direct | dataBank | programBank | status => exact .pure ()

theorem jump (instruction : Instruction) :
    StaysInPageOne Access.isStore (jump instruction : Execution (AccessLog μ) Unit) :=
  (loadsAlike_stores.locateAddress instruction).bind fun _ =>
    .modifyRegisters fun _ hstack => hstack

theorem jumpLong (instruction : Instruction) :
    StaysInPageOne Access.isStore (jumpLong instruction : Execution (AccessLog μ) Unit) :=
  (loadsAlike_stores.locateAddress instruction).bind fun _ =>
    .modifyRegisters fun _ hstack => hstack

-- Work that pulls. Nothing else is loaded, so all loads count.

theorem pull (target : Pulled) :
    StaysInPageOne counts (pull target : Execution (AccessLog μ) Unit) := by
  refine Matched.registers.bind fun _ => (pullWide _).bind fun value =>
    (Matched.modifyRegisters fun _ hstack => hstack.assignPulled value target).bind fun _ => ?_
  cases target with
  | data => exact .charge _
  | direct | dataBank | status => exact .pure ()

theorem returnInterrupt :
    StaysInPageOne counts (returnInterrupt : Execution (AccessLog μ) Unit) := by
  refine pullByte.bind fun _ => (Matched.modifyRegisters fun _ hstack => hstack.setStatus _).bind
    fun _ => pullWord.bind fun _ => (Matched.modifyRegisters ?_).bind fun _ =>
    Matched.registers_bind fun r hstack => ?_
  · exact fun _ hstack => hstack
  · simp only [hstack.1]
    exact .pure ()

-- An instruction without accesses to the stack may do anything.
theorem perform (instruction : Instruction) (action : Action) :
    (∀ access, action.isStackAccess access = false) ∨
      StaysInPageOne action.isStackAccess
        (perform instruction action : Execution (AccessLog μ) Unit) := by
  cases action with
  | push source => exact .inr (push source)
  | pushAddress =>
      exact .inr ((loadsAlike_stores.locateAddress instruction).bind fun _ => pushWord _)
  | call =>
      exact .inr (Matched.registers.bind fun _ => (pushWord _).bind fun _ => jump instruction)
  | callLong =>
      exact .inr (Matched.registers.bind fun _ => (pushByte _).bind fun _ =>
        (pushWord _).bind fun _ => jumpLong instruction)
  | raise interrupt => exact .inr (enter interrupt)
  | pull target => exact .inr (pull target)
  | returnNear => exact .inr (pullWord.bind fun _ => .modifyRegisters fun _ hstack => hstack)
  | returnLong =>
      exact .inr (pullWord.bind fun _ => pullByte.bind fun _ =>
        .modifyRegisters fun _ hstack => hstack)
  | returnInterrupt => exact .inr returnInterrupt
  | _ => exact .inl fun _ => rfl

theorem run (instruction : Instruction) :
    (∀ access, instruction.operation.mnemonic.action.isStackAccess access = false) ∨
      StaysInPageOne instruction.operation.mnemonic.action.isStackAccess
        (run instruction : Execution (AccessLog μ) Unit) :=
  (perform instruction _).imp_right fun hperform => (Matched.charge _).bind fun _ => hperform

omit [Memory μ] in
-- What is counted of the accesses is in page 1.
theorem of_mem {work : Execution (AccessLog μ) α} (hwork : StaysInPageOne counts work)
    {machine : Machine μ} (hstack : machine.registers.StackInPageOne) :
    ∀ access ∈ (accesses work machine).filter counts, access.address.InPageOne := by
  obtain ⟨registers, interrupts, memory, cycles⟩ := machine
  have hempty : PageOneLog counts (⟨memory, #[]⟩ : AccessLog μ) ⟨memory, #[]⟩ :=
    ⟨rfl, fun _ hmem => absurd hmem (Array.not_mem_empty _)⟩
  obtain ⟨-, hafter⟩ := hwork ⟨registers, interrupts, ⟨memory, #[]⟩, cycles⟩ _
    ⟨rfl, rfl, rfl, hstack, hempty⟩
  intro access hmem
  obtain ⟨hmade, hcounts⟩ := List.mem_filter.mp hmem
  exact hafter.memory.2 access (Array.mem_toList_iff.mp hmade) hcounts

end StaysInPageOne

end PageOne

omit [Memory μ] in
theorem inPageOne_of_mem_entry {entry : Execution (AccessLog μ) α} {machine : Machine μ}
    (hentry : StaysInPageOne Access.isStore entry) (hwidths : machine.registers.WidthsAgree) :
    ∀ access ∈ entryStackBytes entry machine, access.address.InPageOne := by
  intro access hmem
  unfold entryStackBytes at hmem
  split at hmem
  · rename_i hem
    exact hentry.of_mem ⟨hem, hwidths.page hem⟩ access hmem
  · exact absurd hmem List.not_mem_nil

theorem inPageOne_of_mem_instruction (instruction : Instruction) {machine : Machine μ}
    (hwidths : machine.registers.WidthsAgree) :
    ∀ access ∈ instructionStackBytes instruction machine, access.address.InPageOne := by
  intro access hmem
  unfold instructionStackBytes at hmem
  split at hmem
  · rename_i hem
    rcases StaysInPageOne.run (μ := μ) instruction with hnone | hrun
    · have hcounts := (List.mem_filter.mp hmem).2
      rw [hnone access] at hcounts
      cases hcounts
    · exact hrun.of_mem ⟨hem, hwidths.page hem⟩ access hmem
  · exact absurd hmem List.not_mem_nil

-- Writing accesses down changes nothing about them.
theorem lockstep_log :
    Lockstep (μ := AccessLog μ) (fun _ => True) (fun log memory => log.memory = memory) where
  changed _ _ := trivial
  loaded _ _ _ hmemory := by
    subst hmemory
    exact ⟨rfl, rfl⟩
  stored _ _ _ _ hmemory := by
    subst hmemory
    exact ⟨rfl, rfl⟩

section Logs

variable {logged : Execution (AccessLog μ) α} {work : Execution μ α}

omit [Memory μ]

-- What is done with a log is what is done without one.
def Logs (logged : Execution (AccessLog μ) α) (work : Execution μ α) : Prop :=
  Matched (Alike (fun _ => True) fun log memory => log.memory = memory) logged work

theorem accesses_eq (logged : Execution (AccessLog μ) α) (machine : Machine μ) :
    accesses logged machine = (logged machine.logged).2.memory.accesses.toList :=
  rfl

theorem Logs.eq_unlogged (hlogs : Logs logged work) (machine : Machine μ) :
    work machine = ((logged machine.logged).1, (logged machine.logged).2.unlogged) := by
  obtain ⟨hanswer, hafter⟩ := hlogs machine.logged machine ⟨rfl, rfl, rfl, trivial, rfl⟩
  rcases hwork : work machine with ⟨answer, registers, interrupts, memory, cycles⟩
  rw [hwork] at hanswer hafter
  obtain ⟨rfl, rfl, rfl, -, rfl⟩ := hafter
  rw [hanswer]
  rfl

end Logs

-- The widths agree throughout, whatever the memory is.
theorem lockstep_widths : Lockstep (μ := μ) Registers.WidthsAgree Eq where
  changed hchange hwidths := hwidths.change hchange
  loaded _ _ _ hsame := by
    subst hsame
    exact ⟨rfl, rfl⟩
  stored _ _ _ _ hsame := by
    subst hsame
    exact ⟨rfl, rfl⟩

omit [Memory μ] in
theorem widthsAgree_of_matched {work : Execution μ α}
    (hwork : Matched (Alike Registers.WidthsAgree Eq) work work) {machine : Machine μ}
    (hwidths : machine.registers.WidthsAgree) : (work machine).2.registers.WidthsAgree :=
  (hwork machine machine ⟨rfl, rfl, rfl, hwidths, rfl⟩).2.kept

theorem inPageOne_of_mem_tick (table : OpcodeTable) {machine : Machine μ}
    (hwidths : machine.registers.WidthsAgree) :
    ∀ access ∈ tickStackBytes table machine, access.address.InPageOne := by
  intro access hmem
  have hentered := widthsAgree_of_matched lockstep_widths.acknowledge hwidths
  rcases List.mem_append.mp hmem with hmem | hmem
  · exact inPageOne_of_mem_entry StaysInPageOne.acknowledge hwidths access hmem
  · rcases hentry : acknowledge machine with ⟨answer, entered⟩
    rw [hentry] at hmem hentered
    cases answer with
    | error error => exact absurd hmem List.not_mem_nil
    | ok taken =>
        have hfetched := widthsAgree_of_matched (lockstep_widths.fetch table) hentered
        dsimp only at hmem
        split at hmem
        · exact absurd hmem List.not_mem_nil
        · rcases hfetch : fetch table entered with ⟨answer, fetched⟩
          rw [hfetch] at hmem hfetched
          cases answer with
          | error error => exact absurd hmem List.not_mem_nil
          | ok instruction => exact inPageOne_of_mem_instruction instruction hfetched access hmem

end Execution

end Console816
