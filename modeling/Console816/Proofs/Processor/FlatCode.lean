import Console816.Proofs.Memory.Flat
import Console816.Proofs.Processor.Dispatch
import Console816.Proofs.Processor.FlatStack

namespace Console816

namespace Address

theorem advance_succ (base : Address) (i : Nat) :
    (base.advance 1).advance i.toUInt16 = base.advance (i + 1).toUInt16 := by
  rw [advance_advance, Nat.add_comm]
  exact congrArg base.advance (UInt16.ofNat_add 1 i).symm

theorem advance_add (base : Address) (first second : Nat) :
    (base.advance first.toUInt16).advance second.toUInt16 =
      base.advance (first + second).toUInt16 := by
  rw [advance_advance]
  exact congrArg base.advance (UInt16.ofNat_add first second).symm

end Address

namespace FlatMemory

-- The bytes lie in memory from an address on, inside of its bank.
def Lies (memory : FlatMemory) : Address → List UInt8 → Prop
  | _, [] => True
  | base, byte :: rest => memory.byte base = byte ∧ memory.Lies (base.advance 1) rest

instance decidableLies (memory : FlatMemory) :
    (base : Address) → (bytes : List UInt8) → Decidable (memory.Lies base bytes)
  | _, [] => .isTrue trivial
  | base, _ :: rest => @instDecidableAnd _ _ _ (decidableLies memory (base.advance 1) rest)

variable {memory other : FlatMemory} {base : Address} {bytes : List UInt8}

theorem lies_append {first second : List UInt8} :
    memory.Lies base (first ++ second) ↔
      memory.Lies base first ∧ memory.Lies (base.advance first.length.toUInt16) second := by
  induction first generalizing base with
  | nil => simp [Lies, Address.advance_zero]
  | cons byte rest ih =>
      rw [List.cons_append, Lies, Lies, ih, Address.advance_succ, List.length_cons, and_assoc]

-- Whoever spares the bytes leaves them where they lie.
theorem Lies.of_same (hlies : memory.Lies base bytes)
    (hsame : ∀ i < bytes.length, other.byte (base.advance i.toUInt16) =
      memory.byte (base.advance i.toUInt16)) : other.Lies base bytes := by
  induction bytes generalizing base with
  | nil => exact trivial
  | cons byte rest ih =>
      have hfirst := hsame 0 (Nat.zero_lt_succ _)
      rw [show base.advance (Nat.toUInt16 0) = base from base.advance_zero] at hfirst
      refine ⟨hfirst.trans hlies.1, ih hlies.2 fun i hi => ?_⟩
      rw [Address.advance_succ]
      exact hsame (i + 1) (Nat.succ_lt_succ hi)

end FlatMemory

namespace Execution

variable {machine : Machine FlatMemory}

-- An operand is decoded from the bytes of its encoding.
theorem decodeOperand_of_lies {mode : Mode} {operand : Operand} {opcodeAt : Address}
    (hdecodes : mode.Decodes machine.registers.p operand)
    (hlies : machine.memory.Lies (opcodeAt.advance 1) operand.encoding) :
    decodeOperand opcodeAt mode machine = (.ok operand, machine) := by
  have hbyte {value : UInt8} {rest : List UInt8}
      (hlies : machine.memory.Lies (opcodeAt.advance 1) (value :: rest)) :
      operandByte opcodeAt 0 machine = (.ok value, machine) := by
    rw [← hlies.1]
    rfl
  have hnext {first value : UInt8} {rest : List UInt8}
      (hlies : machine.memory.Lies (opcodeAt.advance 1) (first :: value :: rest)) :
      operandByte opcodeAt 1 machine = (.ok value, machine) := by
    rw [← hlies.2.1, Address.advance_advance]
    rfl
  have hword {value : UInt16} {rest : List UInt8}
      (hlies : machine.memory.Lies (opcodeAt.advance 1)
        (Word.low value :: Word.high value :: rest)) :
      operandWord opcodeAt machine = (.ok value, machine) := by
    rw [operandWord, bind_of_ok (hbyte hlies), bind_of_ok (hnext hlies), Word.join_low_high]
    rfl
  have hlong {bank : UInt8} {value : UInt16}
      (hlies : machine.memory.Lies (opcodeAt.advance 1) [Word.low value, Word.high value, bank]) :
      operandLong opcodeAt machine = (.ok ⟨bank, value⟩, machine) := by
    have hbank : operandByte opcodeAt 2 machine = (.ok bank, machine) := by
      rw [← hlies.2.2.1, Address.advance_advance, Address.advance_advance]
      rfl
    rw [operandLong, bind_of_ok (hword hlies), bind_of_ok hbank]
    rfl
  cases operand with
  | implied | accumulator =>
      cases hdecodes
      rfl
  | constant value =>
      have hconstant : operandConstant opcodeAt .word machine = (.ok (.constant value), machine) :=
        bind_of_ok (hword hlies)
      rcases hdecodes with ⟨rfl, hwidth⟩ | ⟨rfl, hwidth⟩
      · rw [← hwidth] at hconstant
        exact hconstant
      · rw [← hwidth] at hconstant
        exact hconstant
  | byteConstant value =>
      have hconstant : operandConstant opcodeAt .byte machine =
          (.ok (.byteConstant value), machine) := bind_of_ok (hbyte hlies)
      rcases hdecodes with rfl | ⟨rfl, hwidth⟩ | ⟨rfl, hwidth⟩
      · exact hconstant
      · rw [← hwidth] at hconstant
        exact hconstant
      · rw [← hwidth] at hconstant
        exact hconstant
  | relative displacement =>
      cases hdecodes
      have hdisplacement : displacement.toUInt8.toInt8 = displacement := rfl
      rw [decodeOperand, bind_of_ok (hbyte hlies), hdisplacement]
      rfl
  | relativeLong displacement =>
      cases hdecodes
      have hdisplacement : displacement.toUInt16.toInt16 = displacement := rfl
      rw [decodeOperand, bind_of_ok (hword hlies), hdisplacement]
      rfl
  | direct | directX | directY | directXIndirect | directIndirect | directIndirectY
  | directIndirectLong | directIndirectLongY | stackRelative | stackRelativeIndirectY =>
      cases hdecodes
      exact bind_of_ok (hbyte hlies)
  | absolute | absoluteX | absoluteY | absoluteXIndirect | absoluteIndirect
  | absoluteIndirectLong =>
      cases hdecodes
      exact bind_of_ok (hword hlies)
  | long | longX =>
      cases hdecodes
      exact bind_of_ok (hlong hlies)
  | blockMove target source =>
      cases hdecodes
      rw [decodeOperand, bind_of_ok (hbyte hlies), bind_of_ok (hnext hlies)]
      rfl

-- And so is an instruction that the table knows. PC moves past it.
theorem fetch_of_lies {table : OpcodeTable} {operation : Operation} {operand : Operand}
    {opcode : UInt8} (hget : table.get? opcode = some operation)
    (hdecodes : operation.mode.Decodes machine.registers.p operand)
    (hlies : machine.memory.Lies ⟨machine.registers.k, machine.registers.pc⟩
      (opcode :: operand.encoding)) :
    let r := machine.registers
    fetch table machine =
      (.ok ⟨operation, ⟨r.k, r.pc⟩, operand⟩, { machine with registers := r.past operation }) := by
  intro r
  have hload : loadByte ⟨r.k, r.pc⟩ machine = (.ok opcode, machine) := by
    rw [← hlies.1]
    rfl
  rw [fetch, registers_bind_apply, bind_of_ok hload]
  simp only [hget]
  rw [bind_of_ok (decodeOperand_of_lies hdecodes hlies.2)]
  rfl

end Execution

end Console816
