import Console816.Proofs.Arithmetic.Digits
import Console816.Proofs.Processor.HiddenByte
import Console816.Proofs.Processor.Nesting

namespace Console816

-- Data of a given width, in A or in a flat memory.

namespace Location

-- The cells that the data takes up in memory. A word stays in the bank of its first byte.
def cells (width : Width) : Location → List Address
  | memory address =>
    match width with
    | .byte => [address]
    | .word => [address, address.advance 1]
  | accumulator | constant _ => []

def data (width : Width) (context : Context) : Location → UInt16
  | accumulator => width.truncate context.registers.a
  | constant value => width.truncate value
  | memory address =>
    match width with
    | .byte => (context.memory.byte address).toUInt16
    | .word => Word.join (context.memory.byte address) (context.memory.byte (address.advance 1))

def put (width : Width) (value : UInt16) (context : Context) : Location → Context
  | accumulator =>
    { context with
      registers := { context.registers with a := width.merge context.registers.a value } }
  | constant _ => context
  | memory address =>
    match width with
    | .byte => { context with memory := context.memory.set address (Word.low value) }
    | .word =>
      { context with
        memory := (context.memory.set address (Word.low value)).set (address.advance 1)
          (Word.high value) }

-- What a shift or rotate makes of the data, with its flags.
def shifted (kind : Shift) (place : Location) (context : Context) : Context :=
  let r := context.registers
  let width := r.accumulatorWidth
  let old := place.data width context
  let value := kind.value width (r.p.has .carry) old
  let p := (r.p.put .carry (kind.carryOut width old)).describe width value
  place.put width value { context with registers := { r with p } }

variable (place : Location) (width : Width) (context : Context) (value : UInt16)

theorem truncate_data : width.truncate (place.data width context) = place.data width context := by
  cases place with
  | accumulator => exact width.truncate_truncate _
  | constant => exact width.truncate_truncate _
  | memory address =>
      cases width with
      | byte => exact Word.lowByte_toUInt16 _
      | word => exact Width.truncate_word _

theorem data_pc (pc : UInt16) : place.data width ⟨{ context.registers with pc }, context.memory⟩ =
    place.data width context := by
  cases place <;> rfl

theorem registers_put : (place.put width value context).registers =
    { context.registers with a := (place.put width value context).registers.a } := by
  cases place with
  | accumulator | constant => rfl
  | memory => cases width <;> rfl

theorem memory_put {address : Address} (hout : address ∉ place.cells width) :
    (place.put width value context).memory.byte address = context.memory.byte address := by
  cases place with
  | accumulator | constant => rfl
  | memory first =>
      cases width with
      | byte => exact FlatMemory.set_byte_of_ne _ _ (List.ne_of_not_mem_cons hout)
      | word =>
          have hsecond := List.ne_of_not_mem_cons (List.not_mem_of_not_mem_cons hout)
          exact (FlatMemory.set_byte_of_ne _ _ hsecond).trans
            (FlatMemory.set_byte_of_ne _ _ (List.ne_of_not_mem_cons hout))

theorem a_put (hplace : place ≠ .accumulator) :
    (place.put width value context).registers.a = context.registers.a := by
  cases place with
  | accumulator => exact absurd rfl hplace
  | constant => rfl
  | memory => cases width <;> rfl

theorem high_a_put (hbyte : width = .byte) :
    Word.high (place.put width value context).registers.a = Word.high context.registers.a := by
  subst hbyte
  cases place with
  | accumulator => exact Width.high_merge_byte _ value
  | constant | memory => rfl

section Put

variable {place} (hplace : place.isConstant = false)
include hplace

theorem data_put : place.data width (place.put width value context) = width.truncate value := by
  cases place with
  | accumulator => exact width.truncate_merge _ value
  | constant => cases hplace
  | memory address =>
      cases width with
      | byte =>
          simp only [data, put, FlatMemory.set_byte_self]
          exact Word.low_toUInt16 value
      | word =>
          simp only [data, put, FlatMemory.set_byte_self,
            FlatMemory.set_byte_of_ne _ _ address.advance_one_ne.symm]
          rw [Word.join_low_high, Width.truncate_word]

end Put

variable {width context} {context' : Context}
  (hdata : place.data width context' = place.data width context)
include hdata

-- Where the data is the same, and nothing else has changed, nothing has.

theorem memory_eq (hmemory : ∀ address ∉ place.cells width,
    context'.memory.byte address = context.memory.byte address) :
    context'.memory = context.memory := by
  refine congrArg FlatMemory.mk (funext fun address => ?_)
  by_cases hcell : address ∈ place.cells width
  · cases place with
    | accumulator | constant => exact absurd hcell List.not_mem_nil
    | memory first =>
        cases width with
        | byte =>
            rw [List.mem_singleton.mp hcell]
            exact UInt8.toUInt16_inj.mp hdata
        | word =>
            have hlow := congrArg Word.low hdata
            have hhigh := congrArg Word.high hdata
            simp only [data, Word.low_join, Word.high_join] at hlow hhigh
            simp only [cells, List.mem_cons, List.not_mem_nil, or_false] at hcell
            rcases hcell with rfl | rfl
            · exact hlow
            · exact hhigh
  · exact hmemory address hcell

theorem a_eq (ha : place ≠ .accumulator → context'.registers.a = context.registers.a)
    (hhigh : width = .byte → Word.high context'.registers.a = Word.high context.registers.a) :
    context'.registers.a = context.registers.a := by
  cases place with
  | accumulator =>
      cases width with
      | byte =>
          have hsame : (Word.low context'.registers.a).toUInt16 =
              (Word.low context.registers.a).toUInt16 := by
            rw [Word.low_toUInt16, Word.low_toUInt16]
            exact hdata
          rw [← Word.join_low_high context'.registers.a, UInt8.toUInt16_inj.mp hsame, hhigh rfl,
            Word.join_low_high]
      | word =>
          simp only [data, Width.truncate_word] at hdata
          exact hdata
  | constant | memory => exact ha nofun

end Location

namespace Execution

variable (place : Location) (width : Width) (machine : Machine FlatMemory)

theorem read_flat :
    read place width machine = (.ok (place.data width machine.context), machine) := by
  cases place with
  | accumulator | constant => rfl
  | memory => cases width <;> rfl

theorem write_flat (operation : Operation) (hplace : place.isConstant = false) (value : UInt16) :
    ∃ after, write operation place width value machine = (.ok (), after) ∧
      after.context = place.put width value machine.context ∧
      after.interrupts = machine.interrupts := by
  cases place with
  | accumulator => exact ⟨_, rfl, rfl, rfl⟩
  | constant => cases hplace
  | memory => cases width <;> exact ⟨_, rfl, rfl, rfl⟩

-- What reads, changes and writes one place.
theorem change_flat {place : Location} (hplace : place.isConstant = false)
    {f : Width → UInt16 → Status → UInt16 × Status} {instruction : Instruction} {r : Registers}
    {interrupts : InterruptState} {memory : FlatMemory} {before cycles : Nat}
    (hlocate : locate instruction ⟨r, interrupts, memory, before⟩ =
      (.ok place, ⟨r, interrupts, memory, cycles⟩))
    {value : UInt16} {p : Status}
    (hchange : f r.accumulatorWidth (place.data r.accumulatorWidth ⟨r, memory⟩) r.p = (value, p)) :
    ∃ after, change f instruction ⟨r, interrupts, memory, before⟩ = (.ok (), after) ∧
      after.context = place.put r.accumulatorWidth value ⟨{ r with p }, memory⟩ ∧
      after.interrupts = interrupts := by
  obtain ⟨after, hwrite, hcontext, hinterrupts⟩ := write_flat place r.accumulatorWidth
    ⟨{ r with p }, interrupts, memory, cycles⟩ instruction.operation hplace value
  have hread : read place r.accumulatorWidth ⟨r, interrupts, memory, cycles⟩ =
      (.ok (place.data r.accumulatorWidth ⟨r, memory⟩), ⟨r, interrupts, memory, cycles⟩) :=
    read_flat ..
  have hmodify : modifyRegisters ({ · with p }) ⟨r, interrupts, memory, cycles⟩ =
      (.ok (), ⟨{ r with p }, interrupts, memory, cycles⟩) := rfl
  rw [change, registers_bind_apply, bind_of_ok hlocate, bind_of_ok hread, registers_bind_apply]
  simp only [hchange]
  rw [bind_of_ok hmodify, bind_of_ok hwrite]
  split
  · exact ⟨after, rfl, hcontext, hinterrupts⟩
  · exact ⟨_, rfl, hcontext, hinterrupts⟩

theorem shift_flat {place : Location} (hplace : place.isConstant = false) {kind : Shift}
    {instruction : Instruction} {r : Registers} {interrupts : InterruptState}
    {memory : FlatMemory} {before cycles : Nat}
    (hlocate : locate instruction ⟨r, interrupts, memory, before⟩ =
      (.ok place, ⟨r, interrupts, memory, cycles⟩)) :
    ∃ after, shift kind instruction ⟨r, interrupts, memory, before⟩ = (.ok (), after) ∧
      after.context = place.shifted kind ⟨r, memory⟩ ∧ after.interrupts = interrupts :=
  change_flat hplace hlocate rfl

theorem run_shift {μ : Type} [Memory μ] {kind : Shift} {instruction : Instruction}
    (haction : instruction.operation.mnemonic.action = .shift kind) (machine : Machine μ) :
    run instruction machine = shift kind instruction
      { machine with cycles := machine.cycles + baseCycles instruction.operation } := by
  have hcharge : charge (baseCycles instruction.operation) machine = (.ok (),
      { machine with cycles := machine.cycles + baseCycles instruction.operation }) := rfl
  rw [run, haction, bind_of_ok hcharge, perform]

end Execution

end Console816
