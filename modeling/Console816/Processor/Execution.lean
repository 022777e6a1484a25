import Console816.Instruction.Matrix
import Console816.Instruction.Operand
import Console816.Memory
import Console816.Registers

namespace Console816

inductive ProcessorError where
  | unknownOpcode (opcode : UInt8) (address : Address)
  | invalidOperand (opcode : UInt8) (mode : Mode)
  | bus (error : BusError)
  deriving DecidableEq, Repr

def ProcessorError.message : ProcessorError → String
  | .unknownOpcode opcode address =>
    "Unknown opcode " ++ Text.markedByte opcode ++ " at " ++ address.text
  | .invalidOperand opcode mode =>
    "Opcode " ++ Text.markedByte opcode ++ " has no operand of the requested kind in mode " ++
      mode.name
  | .bus error => "Bus error: " ++ error.message

-- What instructions work on: the state of the processor, the memory, and the cycles spent so far.
structure Machine (μ : Type) where
  registers : Registers
  interrupts : InterruptState
  memory : μ
  cycles : Nat

-- A failure ends the instruction but undoes nothing: the machine stays as the failure found it.
abbrev Execution (μ : Type) := ExceptT ProcessorError (StateM (Machine μ))

namespace Execution

variable {μ : Type}

def registers : Execution μ Registers := do return (← get).registers

def modifyRegisters (f : Registers → Registers) : Execution μ Unit :=
  modify fun machine => { machine with registers := f machine.registers }

def modifyInterrupts (f : InterruptState → InterruptState) : Execution μ Unit :=
  modify fun machine => { machine with interrupts := f machine.interrupts }

def charge (cycles : Nat) : Execution μ Unit :=
  modify fun machine => { machine with cycles := machine.cycles + cycles }

-- Work in turn: the first error is the last.

section Bind

variable {α β : Type} {first : Execution μ α} {next : α → Execution μ β}

theorem bind_apply (first : Execution μ α) (next : α → Execution μ β) (machine : Machine μ) :
    (first >>= next) machine =
      match first machine with
      | (.ok value, after) => next value after
      | (.error error, after) => (.error error, after) := by
  simp only [bind, ExceptT.bind, ExceptT.mk, StateT.bind]
  rcases first machine with ⟨answer, after⟩
  cases answer <;> rfl

theorem registers_bind_apply (next : Registers → Execution μ β) (machine : Machine μ) :
    (registers >>= next) machine = next machine.registers machine :=
  rfl

theorem modifyRegisters_apply (change : Registers → Registers) (machine : Machine μ) :
    modifyRegisters change machine =
      (.ok (), { machine with registers := change machine.registers }) :=
  rfl

theorem bind_of_ok {machine after : Machine μ} {value : α}
    (hfirst : first machine = (.ok value, after)) :
    (first >>= next) machine = next value after := by
  rw [bind_apply, hfirst]

theorem of_bind_ok {machine after : Machine μ} {result : β}
    (hbind : (first >>= next) machine = (.ok result, after)) :
    ∃ value between,
      first machine = (.ok value, between) ∧ next value between = (.ok result, after) := by
  rw [bind_apply] at hbind
  rcases hone : first machine with ⟨answer, between⟩
  rw [hone] at hbind
  cases answer with
  | ok value => exact ⟨value, between, rfl, hbind⟩
  | error error => cases hbind

end Bind

section Memory

variable [Memory μ]

def loadByte (address : Address) : Execution μ UInt8 := fun machine =>
  match Memory.load address machine.memory with
  | (.ok value, memory) => (.ok value, { machine with memory })
  | (.error error, memory) => (.error (.bus error), { machine with memory })

def storeByte (address : Address) (value : UInt8) : Execution μ Unit := fun machine =>
  match Memory.store address value machine.memory with
  | (.ok _, memory) => (.ok (), { machine with memory })
  | (.error error, memory) => (.error (.bus error), { machine with memory })

-- Memory does not touch the registers.

theorem registers_of_loadByte {address : Address} {machine after : Machine μ} {value : UInt8}
    (hload : loadByte address machine = (.ok value, after)) :
    after.registers = machine.registers := by
  unfold loadByte at hload
  split at hload <;> cases hload
  rfl

theorem registers_of_storeByte {address : Address} {value : UInt8} {machine after : Machine μ}
    (hstore : storeByte address value machine = (.ok (), after)) :
    after.registers = machine.registers := by
  unfold storeByte at hstore
  split at hstore <;> cases hstore
  rfl

-- Words lie low byte first, and their second byte stays in the bank of the first.
def loadWord (address : Address) : Execution μ UInt16 := do
  let low ← loadByte address
  let high ← loadByte (address.advance 1)
  return Word.join low high

-- An offset followed by a bank.
def loadLong (address : Address) : Execution μ Address := do
  let offset ← loadWord address
  let bank ← loadByte (address.advance 2)
  return ⟨bank, offset⟩

def storeWord (address : Address) (value : UInt16) : Execution μ Unit := do
  storeByte address (Word.low value)
  storeByte (address.advance 1) (Word.high value)

def load (address : Address) : Width → Execution μ UInt16
  | .byte => return (← loadByte address).toUInt16
  | .word => loadWord address

def store (address : Address) (value : UInt16) : Width → Execution μ Unit
  | .byte => storeByte address (Word.low value)
  | .word => storeWord address value

end Memory

end Execution

end Console816
