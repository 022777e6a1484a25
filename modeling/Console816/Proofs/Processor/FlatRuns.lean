import Console816.Proofs.Instruction.Matrix
import Console816.Proofs.Processor.FlatStack

namespace Console816

-- The modes of JSR and JSL.
def Mode.isCallTarget : Mode → Bool
  | absolute | absoluteXIndirect | long => true
  | _ => false

def Operand.isCallTarget : Operand → Bool
  | absolute _ | absoluteXIndirect _ | long _ _ => true
  | _ => false

def Action.isCall : Action → Bool
  | call | callLong => true
  | _ => false

-- What enters or leaves a frame.
def Action.isFrame : Action → Bool
  | call | callLong | raise _ | returnNear | returnLong | returnInterrupt => true
  | _ => false

namespace OpcodeTable

theorem matrix_calls :
    (matrix.toList.all fun row => !row.1.action.isCall || row.2.1.isCallTarget) = true := by
  decide +kernel

-- Calls are encoded with these modes only.
theorem isCallTarget_of_isCall {opcode : UInt8} {operation : Operation}
    (hget : standard.get? opcode = some operation)
    (hcall : operation.mnemonic.action.isCall = true) : operation.mode.isCallTarget = true := by
  have hmode := List.all_eq_true.mp matrix_calls _ (row_of_standard hget).2
  simpa only [hcall, Bool.not_true, Bool.false_or] using hmode

end OpcodeTable

namespace Execution

variable {α β : Type}

-- The work never fails on a flat memory, and its answer satisfies `result`.
def Gives (result : α → Prop) (work : Execution FlatMemory α) : Prop :=
  ∀ machine, ∃ value after, work machine = (.ok value, after) ∧ result value

-- With nothing asked of the answer.
def Succeeds (work : Execution FlatMemory α) : Prop := Gives (fun _ => True) work

namespace Gives

variable {result : α → Prop} {result' : β → Prop}

theorem pure {value : α} (hvalue : result value) : Gives result (pure value) :=
  fun machine => ⟨value, machine, rfl, hvalue⟩

theorem bind {first : Execution FlatMemory α} {next : α → Execution FlatMemory β}
    (hfirst : Gives result first) (hnext : ∀ value, result value → Gives result' (next value)) :
    Gives result' (first >>= next) := by
  intro machine
  obtain ⟨value, after, hvalue, hresult⟩ := hfirst machine
  rw [bind_of_ok hvalue]
  exact hnext value hresult after

theorem imp {other : α → Prop} {work : Execution FlatMemory α} (hwork : Gives result work)
    (himp : ∀ value, result value → other value) : Gives other work := by
  intro machine
  obtain ⟨value, after, hvalue, hresult⟩ := hwork machine
  exact ⟨value, after, hvalue, himp value hresult⟩

end Gives

namespace Succeeds

theorem bind {result : β → Prop} {first : Execution FlatMemory α}
    {next : α → Execution FlatMemory β} (hfirst : Succeeds first)
    (hnext : ∀ value, Gives result (next value)) : Gives result (first >>= next) :=
  Gives.bind hfirst fun value _ => hnext value

theorem registers : Succeeds registers := fun machine => ⟨_, machine, rfl, trivial⟩

theorem modifyRegisters (change : Registers → Registers) : Succeeds (modifyRegisters change) :=
  fun _ => ⟨(), _, rfl, trivial⟩

theorem modifyInterrupts (change : InterruptState → InterruptState) :
    Succeeds (modifyInterrupts change) :=
  fun _ => ⟨(), _, rfl, trivial⟩

theorem charge (cycles : Nat) : Succeeds (charge cycles) := fun _ => ⟨(), _, rfl, trivial⟩

theorem loadByte (address : Address) : Succeeds (loadByte address) :=
  fun machine => ⟨_, machine, rfl, trivial⟩

theorem storeByte (address : Address) (value : UInt8) : Succeeds (storeByte address value) :=
  fun _ => ⟨(), _, rfl, trivial⟩

theorem composes : ComposesWrites
    fun (work : Execution FlatMemory _) (_ : Execution FlatMemory _) => Succeeds work where
  pure _ := .pure trivial
  bind := .bind
  registers := .registers
  charge := .charge
  loadByte := loadByte
  modifyRegisters _ := .modifyRegisters _
  storeByte := storeByte

theorem decodeOperand (opcodeAt : Address) (mode : Mode) :
    Gives (fun operand => mode.isCallTarget = true → operand.isCallTarget = true)
      (decodeOperand opcodeAt mode) := by
  cases mode with
  | implied | accumulator => exact .pure nofun
  | accumulatorConstant | indexConstant =>
      exact registers.bind fun _ => (composes.operandConstant _ _).imp fun _ _ => nofun
  | absolute | absoluteXIndirect => exact (composes.operandWord _).bind fun _ => .pure fun _ => rfl
  | relativeLong | absoluteX | absoluteY | absoluteIndirect | absoluteIndirectLong =>
      exact (composes.operandWord _).bind fun _ => .pure nofun
  | long => exact (composes.operandLong _).bind fun _ => .pure fun _ => rfl
  | longX => exact (composes.operandLong _).bind fun _ => .pure nofun
  | blockMove =>
      exact (composes.operandByte _ _).bind fun _ => (composes.operandByte _ _).bind fun _ =>
        .pure nofun
  | _ => exact (composes.operandByte _ _).bind fun _ => .pure nofun

theorem enter (interrupt : Interrupt) : Succeeds (enter interrupt) :=
  composes.enterAny (modifyInterrupts _) interrupt

-- The operand of a call names an address.
theorem locateAddress {instruction : Instruction}
    (htarget : instruction.operand.isCallTarget = true) : Succeeds (locateAddress instruction) := by
  obtain ⟨operation, address, operand⟩ := instruction
  cases operand with
  | absolute | absoluteXIndirect | long => exact fun _ => ⟨_, _, rfl, trivial⟩
  | _ => cases htarget

end Succeeds

-- An instruction that the table knows is fetched.
theorem fetch_of_get {table : OpcodeTable} {operation : Operation} (machine : Machine FlatMemory)
    (hget : table.get? (machine.memory.byte ⟨machine.registers.k, machine.registers.pc⟩) =
      some operation) :
    ∃ instruction fetched, fetch table machine = (.ok instruction, fetched) ∧
      instruction.operation = operation ∧
      (operation.mode.isCallTarget = true → instruction.operand.isCallTarget = true) := by
  have hload : loadByte ⟨machine.registers.k, machine.registers.pc⟩ machine =
      (.ok (machine.memory.byte ⟨machine.registers.k, machine.registers.pc⟩), machine) := rfl
  obtain ⟨operand, decoded, hdecode, htarget⟩ := Succeeds.decodeOperand
    ⟨machine.registers.k, machine.registers.pc⟩ operation.mode machine
  rw [fetch, registers_bind_apply, bind_of_ok hload]
  simp only [hget]
  rw [bind_of_ok hdecode]
  exact ⟨_, _, rfl, rfl, htarget⟩

theorem perform_frame {instruction : Instruction} {action : Action} (hframe : action.isFrame = true)
    (htarget : action.isCall = true → instruction.operand.isCallTarget = true) :
    Succeeds (perform instruction action) := by
  cases action with
  | call =>
      exact Succeeds.registers.bind fun _ => (Succeeds.composes.pushWord _).bind fun _ =>
        (Succeeds.locateAddress (htarget rfl)).bind fun _ => Succeeds.modifyRegisters _
  | callLong =>
      exact Succeeds.registers.bind fun _ => (Succeeds.composes.pushByte _).bind fun _ =>
        (Succeeds.composes.pushWord _).bind fun _ =>
        (Succeeds.locateAddress (htarget rfl)).bind fun _ => Succeeds.modifyRegisters _
  | raise interrupt => exact .enter interrupt
  | returnNear => exact Succeeds.composes.returnNear
  | returnLong => exact Succeeds.composes.returnLong
  | returnInterrupt => exact Succeeds.composes.returnInterrupt
  | _ => cases hframe

end Execution

end Console816
