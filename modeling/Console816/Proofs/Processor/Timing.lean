import Console816.Proofs.Instruction.Timing
import Console816.Proofs.Processor.Commands
import Console816.Proofs.Processor.Failures
import Console816.Proofs.Processor.Halts

namespace Console816

namespace Execution

variable {μ α β : Type}

-- Work that succeeds has taken this time if it began with registers of this kind.
def Costs (given : Registers → Prop) (work : Execution μ α) (time : Nat) : Prop :=
  ∀ machine value after, given machine.registers → work machine = (.ok value, after) →
    after.cycles = machine.cycles + time

def Free (work : Execution μ α) : Prop := Costs (fun _ => True) work 0

namespace Costs

variable {given : Registers → Prop} {first : Execution μ α} {next : α → Execution μ β}
  {time more : Nat}

theorem pure (value : α) : Costs given (pure value : Execution μ α) 0 := by
  intro machine result after _ hpure
  cases hpure
  rfl

-- A failure counts nothing.
theorem throw (error : ProcessorError) : Costs given (throw error : Execution μ α) time := by
  intro machine result after _ hthrow
  cases hthrow

theorem charge (cycles : Nat) : Costs given (charge cycles : Execution μ Unit) cycles := by
  intro machine result after _ hcharge
  cases hcharge
  rfl

theorem imp {work : Execution μ α} {other : Registers → Prop} (hgiven : ∀ r, other r → given r)
    (hwork : Costs given work time) : Costs other work time :=
  fun machine value after hother => hwork machine value after (hgiven _ hother)

theorem weaken {work : Execution μ α} (hwork : Costs (fun _ => True) work time) :
    Costs given work time :=
  hwork.imp fun _ _ => trivial

-- The times of two parts add up. What the first answers may matter.
theorem bind_answer (answers : α → Prop) (hfirst : Costs given first time)
    (hanswers : ∀ machine value after, first machine = (.ok value, after) → answers value)
    (hnext : ∀ value, answers value → Costs (fun _ => True) (next value) more) :
    Costs given (first >>= next) (time + more) := by
  intro machine result after hgiven hbind
  obtain ⟨value, between, hone, hrest⟩ := of_bind_ok hbind
  have hanswer := hanswers machine value between hone
  rw [hnext value hanswer between result after trivial hrest,
    hfirst machine value between hgiven hone, Nat.add_assoc]

theorem bind (hfirst : Costs given first time)
    (hnext : ∀ value, Costs (fun _ => True) (next value) more) :
    Costs given (first >>= next) (time + more) :=
  bind_answer (fun _ => True) hfirst (fun _ _ _ _ => trivial) fun value _ => hnext value

theorem bind_free (hfirst : Costs given first time) (hnext : ∀ value, Free (next value)) :
    Costs given (first >>= next) time :=
  hfirst.bind hnext

theorem free_bind (hfirst : Free first) (hnext : ∀ value, Costs (fun _ => True) (next value) time) :
    Costs given (first >>= next) time := by
  have hbind := (weaken hfirst : Costs given first 0).bind hnext
  rwa [Nat.zero_add] at hbind

theorem charge_bind {next : Unit → Execution μ β} (cycles : Nat)
    (hnext : Costs given (next ()) time) :
    Costs given (Execution.charge cycles >>= next) (cycles + time) := by
  intro machine result after hgiven hbind
  have hcost := hnext { machine with cycles := machine.cycles + cycles } result after hgiven hbind
  rw [hcost, Nat.add_assoc]

-- So may what it leaves alone.
theorem keeps_bind (hfirst : Free first)
    (hkeeps : Keeps (fun machine => given machine.registers) first)
    (hnext : ∀ value, Costs given (next value) time) : Costs given (first >>= next) time := by
  intro machine result after hgiven hbind
  obtain ⟨value, between, hone, hrest⟩ := of_bind_ok hbind
  have hstill := hkeeps machine hgiven
  rw [hone] at hstill
  rw [hnext value between result after hstill hrest, hfirst machine value between trivial hone]
  rfl

theorem registers_bind {next : Registers → Execution μ β}
    (hnext : ∀ r, given r → Costs (· = r) (next r) time) :
    Costs given (registers >>= next) time := by
  intro machine result after hgiven hbind
  rw [registers_bind_apply] at hbind
  exact hnext machine.registers hgiven machine result after rfl hbind

end Costs

theorem Free.modifyRegisters (change : Registers → Registers) :
    Free (modifyRegisters change : Execution μ Unit) := by
  intro machine result after _ hmodify
  cases hmodify
  rfl

theorem Free.modifyInterrupts (change : InterruptState → InterruptState) :
    Free (modifyInterrupts change : Execution μ Unit) := by
  intro machine result after _ hmodify
  cases hmodify
  rfl

variable [Memory μ]

theorem Free.loadByte (address : Address) : Free (loadByte address : Execution μ UInt8) := by
  intro machine result after _ hload
  unfold Execution.loadByte at hload
  split at hload <;> cases hload
  rfl

theorem Free.storeByte (address : Address) (value : UInt8) :
    Free (storeByte address value : Execution μ Unit) := by
  intro machine result after _ hstore
  unfold Execution.storeByte at hstore
  split at hstore <;> cases hstore
  rfl

-- Reaching for registers and memory takes no time of its own.
theorem Free.composes :
    ComposesStores fun (work : Execution μ _) (_ : Execution μ _) => Free work where
  pure := .pure
  bind := .bind
  registers := fun machine _ _ _ hregisters => by cases hregisters; rfl
  loadByte := .loadByte
  modifyRegisters _ := .modifyRegisters _
  storeByte := .storeByte

theorem Free.fetch (table : OpcodeTable) : Free (fetch table : Execution μ Instruction) := by
  have composes := Free.composes (μ := μ)
  refine Costs.free_bind composes.registers fun r =>
    Costs.free_bind (composes.loadByte _) fun opcode => ?_
  cases table.get? opcode with
  | none => exact .throw _
  | some operation =>
      exact .free_bind (composes.decodeOperand _ _) fun _ =>
        .free_bind (.modifyRegisters _) fun _ => .pure _

theorem Free.write (operation : Operation) (location : Location) (width : Width) (value : UInt16) :
    Free (write operation location width value : Execution μ Unit) := by
  cases location with
  | accumulator => exact Free.modifyRegisters fun r => { r with a := width.merge r.a value }
  | constant => exact .throw _
  | memory address => exact Free.composes.store address value width

namespace Costs

variable {r : Registers} {instruction : Instruction}

omit [Memory μ] in
theorem chargeWord {given : Registers → Prop} (width : Width) (cycles : Nat) :
    Costs given (chargeWord width cycles : Execution μ Unit)
      (if width.isWord then cycles else 0) :=
  charge _

theorem locate : Costs (· = r) (locate instruction : Execution μ Location)
    (instruction.operand.penalty r) := by
  have composes := Free.composes (μ := μ)
  unfold Execution.locate
  split
  all_goals rename_i hoperand
  · rw [hoperand]
    exact .pure _
  · rw [hoperand]
    exact .pure _
  · rw [hoperand]
    exact .pure _
  · refine registers_bind ?_
    rintro _ rfl
    refine bind_free (charge _) fun _ => free_bind (composes.effectiveAddress _ _) fun found => ?_
    cases found with
    | none => exact throw _
    | some address => exact pure _

theorem locateAddress : Costs (· = r) (locateAddress instruction : Execution μ Address)
    (instruction.operand.penalty r) := by
  refine bind_free locate fun location => ?_
  cases location with
  | memory address => exact pure _
  | accumulator | constant => exact throw _

-- Most instructions find their data, read it, change the registers and charge for a word.
theorem readThen (width : Width) (change : UInt16 → Location → Registers → Registers)
    (cycles : Nat) :
    Costs (· = r) (do
        let location ← Execution.locate instruction
        let value ← Execution.read location width
        Execution.modifyRegisters (change value location)
        Execution.chargeWord width cycles : Execution μ Unit)
      (instruction.operand.penalty r + if width.isWord then cycles else 0) :=
  bind locate fun location => free_bind (Free.composes.read (μ := μ) location width) fun _ =>
    free_bind (.modifyRegisters _) fun _ => chargeWord width cycles

theorem storeValue (width : Width) (value : UInt16) :
    Costs (· = r) (storeValue width value instruction : Execution μ Unit)
      (instruction.operand.penalty r + if width.isWord then 1 else 0) :=
  bind locate fun location => free_bind (Free.write _ location width value) fun _ =>
    chargeWord width 1

theorem putBits (value : Bool) :
    Costs (· = r) (putBits value instruction : Execution μ Unit)
      (instruction.operand.penalty r + if r.accumulatorWidth.isWord then 2 else 0) := by
  refine registers_bind ?_
  rintro _ rfl
  exact bind locate fun location =>
    free_bind (Free.composes.read location _) fun _ => free_bind (.modifyRegisters _) fun _ =>
    free_bind (.write _ location _ _) fun _ => chargeWord _ 2

-- Only an operand that is A is found there.
theorem location_of_locate {machine after : Machine μ} {location : Location}
    (hlocate : Execution.locate instruction machine = (.ok location, after)) :
    location = .accumulator ↔ instruction.operand = .accumulator := by
  obtain ⟨operation, opcodeAt, operand⟩ := instruction
  cases operand with
  | accumulator | constant | byteConstant =>
      cases hlocate
      simp
  | _ =>
      obtain ⟨_, _, -, hlocate⟩ := of_bind_ok hlocate
      obtain ⟨_, _, -, hlocate⟩ := of_bind_ok hlocate
      obtain ⟨found, _, -, hlocate⟩ := of_bind_ok hlocate
      cases found with
      | none => cases hlocate
      | some address =>
          cases hlocate
          simp

theorem change (f : Width → UInt16 → Status → UInt16 × Status) :
    Costs (· = r) (change f instruction : Execution μ Unit)
      (instruction.operand.penalty r + if instruction.operand = .accumulator then 0
        else if r.accumulatorWidth.isWord then 2 else 0) := by
  refine registers_bind ?_
  rintro _ rfl
  refine bind_answer _ locate (fun _ _ _ => location_of_locate) fun location hlocation => ?_
  refine free_bind (Free.composes.read location _) fun old =>
    free_bind Free.composes.registers fun _ => free_bind (.modifyRegisters _) fun _ =>
    free_bind (.write _ location _ _) fun _ => ?_
  by_cases haccumulator : location = .accumulator
  · rw [if_pos haccumulator, if_pos (hlocation.mp haccumulator)]
    exact pure _
  · rw [if_neg haccumulator, if_neg (mt hlocation.mpr haccumulator)]
    exact chargeWord _ 2

theorem shift (kind : Shift) :
    Costs (· = r) (shift kind instruction : Execution μ Unit)
      (instruction.operand.penalty r + (Action.shift kind).surcharge r instruction.operand) := by
  unfold Execution.shift
  exact change _

theorem step (delta : UInt16) :
    Costs (· = r) (step delta instruction : Execution μ Unit)
      (instruction.operand.penalty r + (Action.step delta).surcharge r instruction.operand) := by
  unfold Execution.step
  exact change _

theorem push (source : Pushed) :
    Costs (· = r) (push source : Execution μ Unit)
      ((Action.push source).surcharge r instruction.operand) := by
  refine registers_bind ?_
  rintro _ rfl
  refine free_bind (Free.composes.pushWide _ _) fun _ => ?_
  cases source with
  | data register => exact chargeWord _ 1
  | direct | dataBank | programBank | status => exact pure _

theorem pull (target : Pulled) :
    Costs (· = r) (pull target : Execution μ Unit)
      ((Action.pull target).surcharge r instruction.operand) := by
  refine registers_bind ?_
  rintro _ rfl
  refine free_bind (Free.composes.pullWide _) fun _ => free_bind (.modifyRegisters _) fun _ => ?_
  cases target with
  | data register => exact chargeWord _ 1
  | direct | dataBank | status => exact pure _

theorem moveNext (target source : UInt8) (delta : UInt16) (first : Bool) :
    Costs (fun _ => True) (moveNext target source delta first : Execution μ Bool)
      (if first then 0 else 7) := by
  have hlast : Free (do return (← registers).a == 0xFFFF : Execution μ Bool) :=
    bind_free Free.composes.registers fun _ => .pure _
  refine free_bind (Free.composes.moveByte target source delta) fun _ => ?_
  cases first with
  | true => exact hlast
  | false => exact bind_free (charge 7) fun _ => hlast

theorem moveFurther (target source : UInt8) (delta : UInt16) (count : Nat) :
    Costs (fun _ => True) (moveFurther target source delta count : Execution μ Unit)
      (7 * count) := by
  induction count with
  | zero => exact .pure ()
  | succ count ih =>
      have hboth := (moveNext (μ := μ) target source delta false).bind fun _ => ih
      rw [Nat.add_comm] at hboth
      exact hboth

theorem blockMove (delta : UInt16) :
    Costs (· = r) (blockMove delta instruction : Execution μ Unit) (7 * r.a.toNat) := by
  rw [blockMove_eq]
  split
  · refine registers_bind ?_
    rintro _ rfl
    exact free_bind (.modifyRegisters _) fun _ => free_bind (moveNext _ _ delta true) fun _ =>
      moveFurther _ _ delta _
  · exact throw _

theorem pushAddress :
    Costs (· = r) (pushAddress instruction : Execution μ Unit) (instruction.operand.penalty r) :=
  bind_free locateAddress fun _ => Free.composes.pushWord _

-- Targets are looked up with registers that may have changed, but cost nothing to find.
theorem free_locateAddress (hplain : ∀ r, instruction.operand.penalty r = 0) :
    Free (Execution.locateAddress instruction : Execution μ Address) := by
  intro machine value after _ hlocate
  have hcost := locateAddress machine value after rfl hlocate
  rwa [hplain] at hcost

section Plain

variable (hplain : ∀ r, instruction.operand.penalty r = 0)
include hplain

theorem branch (condition : Condition) (extra : Nat) :
    Costs (· = r) (branch condition extra instruction : Execution μ Unit)
      (if condition.holds r.p then extra else 0) := by
  refine registers_bind ?_
  rintro _ rfl
  refine free_bind (free_locateAddress hplain) fun target => ?_
  split
  · exact free_bind (.modifyRegisters _) fun _ => charge extra
  · exact pure _

theorem jump : Free (jump instruction : Execution μ Unit) :=
  free_bind (free_locateAddress hplain) fun _ => Free.modifyRegisters _

theorem jumpLong : Free (jumpLong instruction : Execution μ Unit) :=
  free_bind (free_locateAddress hplain) fun _ => Free.modifyRegisters _

theorem call : Free (call instruction : Execution μ Unit) :=
  free_bind Free.composes.registers fun _ => free_bind (Free.composes.pushWord _) fun _ =>
    jump hplain

theorem callLong : Free (callLong instruction : Execution μ Unit) :=
  free_bind Free.composes.registers fun _ => free_bind (Free.composes.pushByte _) fun _ =>
    free_bind (Free.composes.pushWord _) fun _ => jumpLong hplain

end Plain

-- The mode is looked at after the status has been pulled, but no status changes it.
theorem returnInterrupt :
    Costs (· = r) (returnInterrupt : Execution μ Unit) (if r.emulation then 0 else 1) := by
  have composes := Free.composes (μ := μ)
  have hload := (invariantReads_registers (μ := μ) (·.emulation = r.emulation)).composes.loadByte
  have hpull : Keeps (fun machine => machine.registers.emulation = r.emulation)
      (Execution.pullByte : Execution μ UInt8) :=
    Keeps.bind (fun _ hkept => hkept) fun _ => Keeps.registers.bind fun _ => hload _
  refine imp (fun _ heq => congrArg Registers.emulation heq) ?_
  refine keeps_bind composes.pullByte hpull fun p =>
    keeps_bind (.modifyRegisters _) ?_ fun _ =>
    keeps_bind composes.pullWord (hpull.bind fun _ => hpull.bind fun _ => .pure _) fun pc =>
    keeps_bind (.modifyRegisters _) (fun _ hkept => hkept) fun _ => registers_bind ?_
  · exact fun machine hkept => (Registers.setStatus_emulation ..).trans hkept
  · intro later hlater
    rw [hlater]
    split
    · exact pure _
    · exact free_bind composes.pullByte fun _ => free_bind (.modifyRegisters _) fun _ => charge 1

theorem enterHandler (interrupt : Interrupt) :
    Costs (· = r) (enterHandler interrupt : Execution μ Unit) (if r.emulation then 7 else 8) := by
  have composes := Free.composes (μ := μ)
  have hrest (cycles : Nat) : Costs (fun _ => True) (do
        Execution.pushWord r.pc
        Execution.pushByte (pushedStatus interrupt r)
        Execution.modifyRegisters fun r =>
          { r with p := (r.p.put .irqDisable true).put .decimal false, k := 0 }
        Execution.loadVector interrupt r.emulation
        Execution.charge cycles : Execution μ Unit) cycles :=
    free_bind (composes.pushWord _) fun _ => free_bind (composes.pushByte _) fun _ =>
      free_bind (.modifyRegisters _) fun _ => free_bind (composes.loadVector _ _) fun _ =>
      charge cycles
  refine registers_bind ?_
  rintro _ rfl
  dsimp only
  split
  · exact weaken (hrest 7)
  · exact free_bind (composes.pushByte _) fun _ => hrest 8

theorem enterReset : Costs (· = r) (enterReset : Execution μ Unit) 7 :=
  free_bind (.modifyInterrupts _) fun _ => free_bind (.modifyRegisters _) fun _ =>
    free_bind (Free.composes.loadVector _ _) fun _ => charge 7

theorem enter (interrupt : Interrupt) :
    Costs (· = r) (enter interrupt : Execution μ Unit) (interrupt.entryTime r.emulation) := by
  cases interrupt with
  | reset => exact enterReset
  | nmi | abort | irq | brk | cop => exact enterHandler _

omit [Memory μ] in
theorem putStatus (value : Bool) :
    Costs (· = r) (putStatus value instruction : Execution μ Unit) 0 := by
  unfold Execution.putStatus
  split
  · exact weaken (Free.modifyRegisters _)
  · exact throw _

omit [Memory μ] in
theorem wait : Costs (· = r) (wait : Execution μ Unit) 0 := by
  refine registers_bind ?_
  rintro _ rfl
  split
  · exact pure _
  · exact weaken (Free.modifyInterrupts _)

theorem perform {action : Action}
    (hplain : action.findsData = false → ∀ r, instruction.operand.penalty r = 0) :
    Costs (· = r) (perform instruction action : Execution μ Unit)
      (instruction.operand.penalty r + action.surcharge r instruction.operand) := by
  have hfree {work : Execution μ Unit} {time : Nat} (hfinds : action.findsData = false)
      (hwork : Costs (· = r) work time) :
      Costs (· = r) work (instruction.operand.penalty r + time) := by
    rwa [hplain hfinds, Nat.zero_add]
  cases action with
  | add | subtract | conjoin | disjoin | exclude | compare | testBits | load =>
      refine registers_bind ?_
      rintro _ rfl
      exact readThen _ _ 1
  | putBits value => exact putBits value
  | shift kind => exact shift kind
  | step delta => exact step delta
  | store | storeZero =>
      refine registers_bind ?_
      rintro _ rfl
      exact storeValue _ _
  | pushAddress => exact pushAddress
  | blockMove delta => exact hfree rfl (blockMove delta)
  | push source => exact hfree rfl (push source)
  | pull target => exact hfree rfl (pull target)
  | branch condition extra => exact hfree rfl (branch (hplain rfl) condition extra)
  | jump => exact hfree rfl (weaken (jump (hplain rfl)))
  | jumpLong => exact hfree rfl (weaken (jumpLong (hplain rfl)))
  | call => exact hfree rfl (weaken (call (hplain rfl)))
  | callLong => exact hfree rfl (weaken (callLong (hplain rfl)))
  | returnNear => exact hfree rfl (weaken Free.composes.returnNear)
  | returnLong => exact hfree rfl (weaken Free.composes.returnLong)
  | returnInterrupt => exact hfree rfl returnInterrupt
  | raise interrupt => exact hfree rfl (enter interrupt)
  | stepIndex | copy | copyWord | copyToStack | swapBytes | putFlag | exchangeEmulation =>
      simp only [Execution.perform]
      exact hfree rfl (weaken (Free.modifyRegisters _))
  | putStatus value => exact hfree rfl (putStatus value)
  | wait => exact hfree rfl wait
  | stop =>
      simp only [Execution.perform, Execution.stop]
      exact hfree rfl (weaken (Free.modifyInterrupts _))
  | nothing => exact hfree rfl (pure _)

theorem run {opcode : UInt8} {p : Status}
    (hget : OpcodeTable.standard.get? opcode = some instruction.operation)
    (hdecodes : instruction.operation.mode.Decodes p instruction.operand) :
    Costs (· = r) (run instruction : Execution μ Unit) (instruction.operation.time r) := by
  rw [← Operation.time_eq hget hdecodes]
  refine charge_bind _ (perform fun hfinds r => ?_)
  rw [Mode.penalty_of_decodes hdecodes, OpcodeTable.penalty_of_standard hget hfinds]

end Costs

theorem opcode_of_fetch {table : OpcodeTable} {machine fetched : Machine μ}
    {instruction : Instruction} (hfetch : fetch table machine = (.ok instruction, fetched)) :
    ∃ opcode,
      (Memory.load ⟨machine.registers.k, machine.registers.pc⟩ machine.memory).1 = .ok opcode ∧
        table.get? opcode = some instruction.operation := by
  rw [fetch, registers_bind_apply] at hfetch
  obtain ⟨opcode, opened, hload, hfetch⟩ := of_bind_ok hfetch
  cases hget : table.get? opcode with
  | none =>
      simp only [hget] at hfetch
      cases hfetch
  | some operation =>
      simp only [hget] at hfetch
      obtain ⟨operand, decoded, -, hfetch⟩ := of_bind_ok hfetch
      cases hfetch
      refine ⟨opcode, ?_, hget⟩
      unfold loadByte at hload
      split at hload <;> cases hload
      rename_i heq
      exact congrArg Prod.fst heq

-- The time of the instruction at K:PC.
def instructionTime (machine : Machine μ) : Nat :=
  match (Memory.load ⟨machine.registers.k, machine.registers.pc⟩ machine.memory).1 with
  | .error _ => 0
  | .ok opcode =>
    match OpcodeTable.standard.get? opcode with
    | none => 0
    | some operation => operation.time machine.registers

theorem cycles_proceed {machine after : Machine μ}
    (hrunning : machine.interrupts.isHalted = false)
    (hproceed : proceed .standard machine = (.ok (), after)) :
    after.cycles = machine.cycles + instructionTime machine := by
  rw [proceed_of_running hrunning] at hproceed
  obtain ⟨instruction, fetched, hfetch, hrun⟩ := of_bind_ok hproceed
  obtain ⟨opcode, hload, hget⟩ := opcode_of_fetch hfetch
  have hfollows := (Takes.fetch OpcodeTable.exists_of_standard).follows machine
    (lockstep_log.fetch .standard)
  rw [hfetch] at hfollows
  cases hfollows with
  | complete hcourse _ =>
      obtain ⟨-, -, hdecodes, hregisters, -⟩ := hcourse
      have hfree := Free.fetch .standard machine instruction fetched trivial hfetch
      have hcost := Costs.run hget hdecodes fetched () after rfl hrun
      have htime : instructionTime machine = instruction.operation.time machine.registers := by
        simp only [instructionTime, hload, hget]
      rw [hcost, hfree, hregisters, htime]
      rfl

end Execution

namespace Processor

open Execution

variable {μ : Type} [Memory μ]

-- The time of the entry that the next tick makes, and of its instruction, unless it finds the
-- processor halted.

def entryTime (processor : Processor) : Nat :=
  match processor.taken with
  | none => 0
  | some interrupt => interrupt.entryTime processor.registers.emulation

def instructionTime (processor : Processor) (memory : μ) : Nat :=
  let machine := (processor.entered memory).2
  if machine.interrupts.isHalted then 0 else Execution.instructionTime machine

theorem cycles_entered {processor : Processor} {memory : μ} {machine : Machine μ}
    (hentered : processor.entered memory = (.ok (), machine)) :
    machine.cycles = processor.entryTime := by
  unfold entryTime
  cases htaken : processor.taken with
  | none =>
      rw [entered, htaken] at hentered
      cases hentered
      rfl
  | some interrupt =>
      rw [entered_of_taken memory htaken] at hentered
      have hcost := Costs.enter interrupt _ _ _ rfl hentered
      rw [hcost]
      exact Nat.zero_add _

theorem answer_eq_times {processor : Processor} (hstandard : processor.opcodes = .standard)
    {memory : μ} {count : Nat} (hanswer : (processor.tick memory).1 = .ok count) :
    count = processor.entryTime + processor.instructionTime memory := by
  rw [answer_tick, tick_entered] at hanswer
  unfold instructionTime
  rcases hentered : processor.entered memory with ⟨answer, machine⟩
  rw [hentered] at hanswer
  cases answer with
  | error error => cases hanswer
  | ok =>
      have hentry := cycles_entered hentered
      dsimp only at hanswer
      rcases hproceed : proceed processor.opcodes machine with ⟨answer, after⟩
      rw [hproceed] at hanswer
      cases answer with
      | error error => cases hanswer
      | ok =>
          cases hanswer
          dsimp only
          split
          · rename_i hhalted
            rw [proceed, bind_of_ok (isHalted_apply machine), hhalted] at hproceed
            cases hproceed
            exact hentry
          · rename_i hrunning
            rw [hstandard] at hproceed
            rw [cycles_proceed ((Bool.not_eq_true _).mp hrunning) hproceed, hentry]

-- The time that an answer reports. Failures take none.
def answerTime : Except ProcessorError Nat → Nat
  | .ok count => count
  | .error _ => 0

omit [Memory μ] in
theorem cycles_execute (work : Execution μ Unit) (processor : Processor) (memory : μ) :
    (processor.execute work memory).2.1.cycles =
      processor.cycles + (answerTime (processor.execute work memory).1).toUInt64 := by
  rcases hwork : work (processor.machine memory) with ⟨answer, after⟩
  cases answer with
  | ok => rw [execute_of_ok hwork, answerTime]
  | error error =>
      rw [execute_of_error hwork]
      exact (UInt64.add_zero _).symm

omit [Memory μ] in
theorem answerTime_execute {work : Execution μ Unit} {processor : Processor} {time : Nat}
    (hcosts : Costs (· = processor.registers) work time) (memory : μ) :
    answerTime (processor.execute work memory).1 =
      if (processor.execute work memory).1.isOk then time else 0 := by
  rcases hwork : work (processor.machine memory) with ⟨answer, after⟩
  cases answer with
  | ok =>
      rw [execute_of_ok hwork]
      exact (hcosts _ _ _ rfl hwork).trans (Nat.zero_add time)
  | error error =>
      rw [execute_of_error hwork]
      rfl

-- What a run of commands takes: the ticks that succeed what they answer, and such resets 7 cycles.

def Command.time (command : Command μ) (processor : Processor) (memory : μ) : Nat :=
  match command with
  | tick => answerTime (processor.tick memory).1
  | reset => if (processor.reset memory).1.isOk then 7 else 0
  | _ => 0

def spent (processor : Processor) (memory : μ) : List (Command μ) → Nat
  | [] => 0
  | command :: rest =>
    let (after, left) := command.apply processor memory
    command.time processor memory + spent after left rest

theorem cycles_apply (command : Command μ) (processor : Processor) (memory : μ) :
    (command.apply processor memory).1.cycles =
      processor.cycles + (command.time processor memory).toUInt64 := by
  cases command with
  | tick => exact cycles_execute (Execution.tick processor.opcodes) processor memory
  | reset =>
      have htime : answerTime (processor.reset memory).1 =
          if (processor.reset memory).1.isOk then 7 else 0 :=
        answerTime_execute (Costs.enter .reset) memory
      rw [Command.time, ← htime]
      exact cycles_execute (Execution.enter .reset) processor memory
  | request | clear | poll | insert | erase | exchange => exact (UInt64.add_zero _).symm

theorem cycles_run (processor : Processor) (memory : μ) (commands : List (Command μ)) :
    (run processor memory commands).1.cycles =
      processor.cycles + (spent processor memory commands).toUInt64 := by
  induction commands generalizing processor memory with
  | nil => exact (UInt64.add_zero _).symm
  | cons command rest ih =>
      have hrest := ih (command.apply processor memory).1 (command.apply processor memory).2
      rw [cycles_apply, UInt64.add_assoc, ← UInt64.ofNat_add] at hrest
      exact hrest

theorem cycles_accounted (processor : Processor) (memory : μ) :
    (processor.opcodes = .standard → ∀ count, (processor.tick memory).1 = .ok count →
      count = processor.entryTime + processor.instructionTime memory) ∧
    (∀ count, (processor.tick memory).1 = .ok count →
      (processor.tick memory).2.1.cycles = processor.cycles + count.toUInt64) ∧
    ∀ commands : List (Command μ),
      (run processor memory commands).1.cycles =
        processor.cycles + (spent processor memory commands).toUInt64 := by
  refine ⟨fun hstandard _ => answer_eq_times hstandard, fun count hanswer => ?_,
    cycles_run processor memory⟩
  have hcycles := cycles_execute (Execution.tick processor.opcodes) processor memory
  rwa [show (processor.execute (Execution.tick processor.opcodes) memory).1 = .ok count from
    hanswer] at hcycles

omit [Memory μ] in
theorem eq_ok_of_toOption {answer : Except ProcessorError Nat} {count : Nat}
    (hanswer : answer.toOption = some count) : answer = .ok count := by
  cases answer with
  | ok => exact congrArg Except.ok (Option.some.inj hanswer)
  | error => cases hanswer

-- A native NMI, and then an indexed load through an unaligned direct page with 16-bit registers.
theorem cycles_accounted_indirectLoad :
    let processor : Processor :=
      { registers := { Registers.powerOn with d := 0x0001, p := ⟨0⟩, emulation := false }
        interrupts := InterruptState.request {} .nmi
        opcodes := .standard
        cycles := 0 }
    let memory : FlatMemory := ⟨fun _ => 0xB1⟩
    (processor.tick memory).1 = .ok 16 ∧ processor.entryTime = 8 ∧
      16 = processor.entryTime + processor.instructionTime memory := by
  intro processor memory
  have hanswer : (processor.tick memory).1 = .ok 16 := eq_ok_of_toOption (by decide +kernel)
  exact ⟨hanswer, by decide +kernel, (cycles_accounted processor memory).1 rfl 16 hanswer⟩

-- The entries of hardware interrupts and of resets alone.
def hardwareTime (processor : Processor) : Nat :=
  match processor.taken with
  | some .reset => 7
  | some .nmi | some .abort | some .irq => if processor.registers.emulation then 7 else 8
  | _ => 0

-- BRK and COP can also be requested, and then their entries take time like any other.
theorem requested_break_takes_time :
    ¬∀ (processor : Processor) (memory : FlatMemory) (count : Nat),
      processor.opcodes = .standard → (processor.tick memory).1 = .ok count →
        count = processor.hardwareTime + processor.instructionTime memory := by
  intro hclaim
  have hnine := hclaim ⟨.powerOn, InterruptState.request {} .brk, .standard, 0⟩ ⟨fun _ => 0xEA⟩ 9
    rfl (eq_ok_of_toOption (by decide +kernel))
  revert hnine
  decide +kernel

end Processor

end Console816
