import Console816.Proofs.Processor.Courses
import Console816.Proofs.Processor.FlatStack

namespace Console816

namespace Execution

variable {μ α β : Type}

-- The two loads of a vector.
def vectorLoads (interrupt : Interrupt) (emulation : Bool) (low high : UInt8) : List Access :=
  let vector : Address := ⟨0, interrupt.vector emulation⟩
  [.load vector (.ok low), .load (vector.advance 1) (.ok high)]

-- All that an entry does to memory when it gets to its end: it pushes its frame, which a reset does
-- not have, and loads its vector.
def entryAccesses (interrupt : Interrupt) (r : Registers) (low high : UInt8) : List Access :=
  r.pushes (if interrupt = .reset then [] else handlerFrame interrupt r r.pc) ++
    vectorLoads interrupt r.emulation low high

variable [Memory μ]

namespace Takes

variable {r : Registers}

theorem loadVector (interrupt : Interrupt) (emulation : Bool) :
    Takes (loadVector interrupt emulation : Execution (AccessLog μ) Unit) r fun _ after made =>
      ∃ low high, after = { r with pc := Word.join low high } ∧
        made = vectorLoads interrupt emulation low high := by
  refine (loadWord _).bind ?_
  rintro handler _ _ ⟨rfl, rfl⟩
  exact modifyRegisters ⟨Word.low handler, Word.high handler, by simp, by simp [vectorLoads]⟩

theorem enterReset :
    Takes (enterReset : Execution (AccessLog μ) Unit) r fun _ after made =>
      ∃ low high, after = { r.reset with pc := Word.join low high } ∧
        made = vectorLoads .reset true low high := by
  refine modifyInterrupts_bind (modifyRegisters_bind ((loadVector _ _).bind ?_))
  rintro _ _ _ ⟨low, high, rfl, rfl⟩
  exact charge ⟨low, high, rfl, by simp⟩

-- The registers with which a handler starts.
def handled (r : Registers) (pc : UInt16) : Registers :=
  { r with p := (r.p.put .irqDisable true).put .decimal false, k := 0, pc }

theorem enterHandler (interrupt : Interrupt) :
    Takes (enterHandler interrupt : Execution (AccessLog μ) Unit) r fun _ after made =>
      let frame := handlerFrame interrupt r r.pc
      ∃ low high, after = handled (r.afterPushes frame) (Word.join low high) ∧
        made = r.pushes frame ++ vectorLoads interrupt r.emulation low high := by
  -- from the program counter on, both modes push and load the same
  have hrest (pushed : Registers) (cycles : Nat) : Takes (do
        Execution.pushWord r.pc
        Execution.pushByte (pushedStatus interrupt r)
        Execution.modifyRegisters fun r =>
          { r with p := (r.p.put .irqDisable true).put .decimal false, k := 0 }
        Execution.loadVector interrupt r.emulation
        Execution.charge cycles : Execution (AccessLog μ) Unit) pushed fun _ after made =>
      let frame := [Word.high r.pc, Word.low r.pc, pushedStatus interrupt r]
      ∃ low high, after = handled (pushed.afterPushes frame) (Word.join low high) ∧
        made = pushed.pushes frame ++ vectorLoads interrupt r.emulation low high := by
    refine (pushWord _).bind ?_
    rintro _ _ _ ⟨rfl, rfl⟩
    refine (pushByte _).bind ?_
    rintro _ _ _ ⟨rfl, rfl⟩
    refine modifyRegisters_bind ((loadVector _ _).bind ?_)
    rintro _ _ _ ⟨low, high, rfl, rfl⟩
    exact charge ⟨low, high, rfl, by simp⟩
  refine registers_bind ?_
  by_cases hem : r.emulation = true
  · simp only [handlerFrame, if_pos hem]
    exact hrest r 7
  · simp only [handlerFrame, if_neg hem]
    refine (pushByte _).bind ?_
    rintro _ _ _ ⟨rfl, rfl⟩
    refine (hrest _ 8).mono ?_
    rintro _ _ _ ⟨low, high, rfl, rfl⟩
    exact ⟨low, high, by simp only [Registers.afterPushes_cons], by simp⟩

-- An entry starts its handler in bank 0. Only a reset moves the stack otherwise than by pushing.
theorem enter (interrupt : Interrupt) :
    Takes (enter interrupt : Execution (AccessLog μ) Unit) r fun _ after made =>
      ∃ low high, after.pc = Word.join low high ∧ after.k = 0 ∧
        (interrupt ≠ .reset → after.s = (r.afterPushes (handlerFrame interrupt r r.pc)).s) ∧
        made = entryAccesses interrupt r low high := by
  cases interrupt with
  | reset =>
      refine enterReset.mono ?_
      rintro _ _ _ ⟨low, high, rfl, rfl⟩
      exact ⟨low, high, rfl, rfl, fun hreset => absurd rfl hreset, rfl⟩
  | nmi | abort | irq | brk | cop =>
      refine (enterHandler _).mono ?_
      rintro _ _ _ ⟨low, high, rfl, rfl⟩
      exact ⟨low, high, rfl, rfl, fun _ => rfl, rfl⟩

end Takes

-- An entry gets to its end: it has pushed its frame, and PC holds what its vector holds.
def Completes (interrupt : Interrupt) (machine : Machine μ) : Prop :=
  ∃ low high, (enter interrupt machine).1 = .ok () ∧
    accesses (enter interrupt) machine = entryAccesses interrupt machine.registers low high ∧
    (enter interrupt machine).2.registers.pc = Word.join low high ∧
    (enter interrupt machine).2.registers.k = 0

-- An entry ends with the first access that fails, and reports it.
def BreaksOff (interrupt : Interrupt) (machine : Machine μ) (error : BusError) : Prop :=
  ∃ made last, (enter interrupt machine).1 = .error (.bus error) ∧
    accesses (enter interrupt) machine = made ++ [last] ∧
    (∀ access ∈ made, access.error? = none) ∧ last.error? = some error

theorem completes_or_breaksOff (interrupt : Interrupt) (machine : Machine μ) :
    Completes interrupt machine ∨ ∃ error, BreaksOff interrupt machine error := by
  have hfollows := (Takes.enter interrupt).follows machine (lockstep_log.enter interrupt)
  unfold Completes BreaksOff
  generalize (enter interrupt machine).1 = answer at hfollows ⊢
  cases hfollows with
  | complete hcourse _ =>
      obtain ⟨low, high, hpc, hk, -, haccesses⟩ := hcourse
      exact .inl ⟨low, high, rfl, haccesses, hpc, hk⟩
  | cutShort _ hwhole hcut =>
      obtain ⟨made, access, rest, rfl, haccesses⟩ := hcut
      exact .inr ⟨_, made, _, rfl, haccesses,
        fun made hmem => hwhole made (List.mem_append_left _ hmem), access.error?_fail _⟩

end Execution

end Console816
