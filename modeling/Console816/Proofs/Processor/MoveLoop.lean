import Console816.Processor.Transfer

namespace Console816.Execution

-- The loop of a block move by the number of its bytes.

variable {μ : Type} [Memory μ] (target source : UInt8) (delta : UInt16)

def moveFurther : Nat → Execution μ Unit
  | 0 => return
  | count + 1 => do
    let _ ← moveNext target source delta false
    moveFurther count

-- As many bytes follow one as A says in front of it.
theorem moveBytes_eq (first : Bool) (machine : Machine μ) :
    moveBytes target source delta first machine =
      (do
        let _ ← moveNext target source delta first
        moveFurther target source delta machine.registers.a.toNat) machine := by
  induction hcount : machine.registers.a.toNat generalizing first machine with
  | zero =>
      have ha : machine.registers.a = 0 := UInt16.toNat_inj.mp hcount
      rw [moveBytes, bind_apply]
      rcases hmoved : moveNext target source delta first machine with ⟨answer, after⟩
      cases answer with
      | error error => rfl
      | ok done =>
          obtain ⟨-, rfl⟩ := a_of_moveNext hmoved
          rw [ha]
          rfl
  | succ count ih =>
      have hne : machine.registers.a ≠ 0 := by
        intro ha
        rw [ha] at hcount
        cases hcount
      rw [moveBytes, bind_apply]
      rcases hmoved : moveNext target source delta first machine with ⟨answer, after⟩
      cases answer with
      | error error => rfl
      | ok done =>
          obtain ⟨ha, rfl⟩ := a_of_moveNext hmoved
          have hleft := Word.toNat_sub_one hne
          rw [beq_false_of_ne hne]
          exact ih false after (by rw [ha]; omega)

-- A + 1 bytes are moved.
theorem blockMove_eq (instruction : Instruction) :
    (blockMove delta instruction : Execution μ Unit) =
      match instruction.operand with
      | .blockMove target source => do
        let r ← registers
        modifyRegisters ({ · with dbr := target })
        let _ ← moveNext target source delta true
        moveFurther target source delta r.a.toNat
      | _ => invalidOperand instruction.operation := by
  unfold blockMove
  obtain ⟨operation, opcodeAt, operand⟩ := instruction
  cases operand with
  | blockMove target source =>
      funext machine
      exact moveBytes_eq target source delta true
        { machine with registers := { machine.registers with dbr := target } }
  | _ => rfl

end Console816.Execution
