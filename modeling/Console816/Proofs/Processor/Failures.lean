import Console816.Proofs.Processor.Dispatch
import Console816.Proofs.Memory.Flat

namespace Console816

-- A flat memory with one address out of reach.
structure HoledMemory where
  flat : FlatMemory
  hole : Address

instance : Memory HoledMemory where
  load address memory :=
    if address = memory.hole then (.error (.unmappedCartridgeRead address), memory)
    else (.ok (memory.flat.byte address), memory)
  store address value memory :=
    if address = memory.hole then (.error (.unmappedCartridgeRead address), memory)
    else (.ok (), { memory with flat := memory.flat.set address value })

namespace Execution

variable {μ : Type}

namespace Takes

variable {r : Registers}

theorem poll (irqDisabled : Bool) :
    Takes (modifyGet fun machine =>
        let (taken, interrupts) := machine.interrupts.poll irqDisabled
        (taken, { machine with interrupts }) : Execution (AccessLog μ) (Option Interrupt)) r
      fun _ after made => after = r ∧ made = [] :=
  of_silent fun _ hr => ⟨_, _, rfl, rfl, hr, rfl⟩

theorem isHalted :
    Takes (isHalted : Execution (AccessLog μ) Bool) r
      fun _ after made => after = r ∧ made = [] :=
  of_silent fun _ hr => ⟨_, _, rfl, rfl, hr, rfl⟩

variable [Memory μ]

theorem acknowledge :
    Takes (acknowledge : Execution (AccessLog μ) (Option Interrupt)) r fun taken _ made =>
      match taken with
      | none => made = []
      | some interrupt => ∃ low high, made = entryAccesses interrupt r low high := by
  refine registers_bind ((poll _).bind ?_)
  rintro taken _ _ ⟨rfl, rfl⟩
  cases taken with
  | none => exact .pure rfl
  | some interrupt =>
      refine (enter interrupt).bind ?_
      rintro _ _ _ ⟨low, high, -, -, -, rfl⟩
      exact .pure ⟨low, high, List.append_nil _⟩

theorem tick : Takes (tick .standard : Execution (AccessLog μ) Unit) r fun _ _ _ => True := by
  refine acknowledge.bind fun _ _ _ _ => isHalted.bind ?_
  rintro halted ahead _ -
  cases halted with
  | true => exact .pure trivial
  | false => exact (dispatch ahead).mono fun _ _ _ _ => trivial

end Takes

-- An opcode that stands for nothing is all that is loaded of an instruction.

variable [Memory μ] {table : OpcodeTable} {machine : Machine μ} {opcode : UInt8} {memory : μ}

theorem dispatch_unknown (hget : table.get? opcode = none)
    (hload : Memory.load ⟨machine.registers.k, machine.registers.pc⟩ machine.memory =
      (.ok opcode, memory)) :
    dispatch table machine =
      (.error (.unknownOpcode opcode ⟨machine.registers.k, machine.registers.pc⟩),
        { machine with memory }) := by
  have hopcode : loadByte ⟨machine.registers.k, machine.registers.pc⟩ machine =
      (.ok opcode, { machine with memory }) := by
    rw [loadByte, hload]
  have hfetch : fetch table machine =
      (.error (.unknownOpcode opcode ⟨machine.registers.k, machine.registers.pc⟩),
        { machine with memory }) := by
    rw [fetch, registers_bind_apply, bind_of_ok hopcode, hget]
    rfl
  rw [dispatch, bind_apply, hfetch]

-- A load is the first to be written down.
theorem load_log {address : Address} {value : UInt8} {left : μ}
    (hload : Memory.load address memory = (.ok value, left)) :
    Memory.load address (⟨memory, #[]⟩ : AccessLog μ) =
      (.ok value, ⟨left, #[.load address (.ok value)]⟩) := by
  simp [Memory.load, hload]

theorem accesses_dispatch_unknown (hget : table.get? opcode = none)
    (hload : Memory.load ⟨machine.registers.k, machine.registers.pc⟩ machine.memory =
      (.ok opcode, memory)) :
    accesses (dispatch table) machine =
      [.load ⟨machine.registers.k, machine.registers.pc⟩ (.ok opcode)] := by
  obtain ⟨registers, interrupts, memory', cycles⟩ := machine
  rw [accesses, dispatch_unknown hget (load_log hload)]

end Execution

namespace Processor

open Execution

variable {μ : Type}

-- The machine that the next tick or reset begins with.
def machine (processor : Processor) (memory : μ) : Machine μ :=
  ⟨processor.registers, processor.interrupts, memory, 0⟩

section Execute

variable {work : Execution μ Unit} {processor : Processor} {memory : μ} {after : Machine μ}

theorem execute_of_ok (hwork : work (processor.machine memory) = (.ok (), after)) :
    processor.execute work memory =
      (.ok after.cycles,
        ⟨after.registers, after.interrupts, processor.opcodes,
          processor.cycles + after.cycles.toUInt64⟩,
        after.memory) := by
  unfold machine at hwork
  simp only [execute, hwork]

theorem execute_of_error {error : ProcessorError}
    (hwork : work (processor.machine memory) = (.error error, after)) :
    processor.execute work memory =
      (.error error,
        ⟨after.registers, after.interrupts, processor.opcodes, processor.cycles⟩,
        after.memory) := by
  unfold machine at hwork
  simp only [execute, hwork]

theorem explains_execute {made : List Access}
    (hexplains : Explains made (work (processor.machine memory)).1) :
    Explains made (processor.execute work memory).1 := by
  rcases hwork : work (processor.machine memory) with ⟨answer, after⟩
  rw [hwork] at hexplains
  cases hexplains with
  | ok hmade =>
      rw [execute_of_ok hwork]
      exact .ok hmade
  | error hmade hlast =>
      rw [execute_of_error hwork]
      exact .error hmade hlast

end Execute

variable [Memory μ]

theorem explains_tick {processor : Processor} (hstandard : processor.opcodes = .standard)
    (memory : μ) :
    Explains (accesses (Execution.tick processor.opcodes) (processor.machine memory))
      (processor.tick memory).1 := by
  refine explains_execute ?_
  rw [hstandard]
  exact (Takes.tick.follows _ (lockstep_log.tick .standard)).explains

theorem explains_reset (processor : Processor) (memory : μ) :
    Explains (accesses (enter .reset) (processor.machine memory)) (processor.reset memory).1 :=
  explains_execute ((Takes.enter .reset).follows _ (lockstep_log.enter .reset)).explains

-- The polling of the tick and what it enters take effect. After that only the opcode is loaded.
structure StopsAt (processor : Processor) (memory : μ) (entered : Machine μ) (opcode : UInt8)
    (left : μ) : Prop where
  tick : processor.tick memory =
    (.error (.unknownOpcode opcode ⟨entered.registers.k, entered.registers.pc⟩),
      { processor with registers := entered.registers, interrupts := entered.interrupts }, left)
  accesses : accesses (Execution.tick processor.opcodes) (processor.machine memory) =
    accesses acknowledge (processor.machine memory) ++
      [.load ⟨entered.registers.k, entered.registers.pc⟩ (.ok opcode)]

theorem stopsAt {processor : Processor} {memory left : μ} {taken : Option Interrupt}
    {entered : Machine μ} {opcode : UInt8} (hget : processor.opcodes.get? opcode = none)
    (hentry : acknowledge (processor.machine memory) = (.ok taken, entered))
    (hrunning : entered.interrupts.isHalted = false)
    (hload : Memory.load ⟨entered.registers.k, entered.registers.pc⟩ entered.memory =
      (.ok opcode, left)) :
    processor.StopsAt memory entered opcode left where
  tick := by
    have htick : Execution.tick processor.opcodes (processor.machine memory) =
        (.error (.unknownOpcode opcode ⟨entered.registers.k, entered.registers.pc⟩),
          { entered with memory := left }) := by
      rw [tick_eq, bind_of_ok hentry, proceed_of_running hrunning]
      exact dispatch_unknown hget hload
    exact execute_of_error htick
  accesses := by
    rw [accesses_tick, dispatchAccesses, hentry]
    simp only [hrunning, Bool.false_eq_true, if_false, accesses_dispatch_unknown hget hload]

-- Only the memory can make the processor fail, and its first failure ends the work. An opcode that
-- stands for nothing ends it as well.
theorem fails_through_memory (processor : Processor) (memory : μ) :
    (processor.opcodes = .standard →
      Explains (accesses (Execution.tick processor.opcodes) (processor.machine memory))
        (processor.tick memory).1) ∧
    Explains (accesses (enter .reset) (processor.machine memory)) (processor.reset memory).1 ∧
    ∀ opcode taken entered left,
      processor.opcodes.get? opcode = none →
      acknowledge (processor.machine memory) = (.ok taken, entered) →
      entered.interrupts.isHalted = false →
      Memory.load ⟨entered.registers.k, entered.registers.pc⟩ entered.memory =
        (.ok opcode, left) →
      processor.StopsAt memory entered opcode left :=
  ⟨fun hstandard => explains_tick hstandard memory, explains_reset processor memory,
    fun _ _ _ _ hget hentry hrunning hload => stopsAt hget hentry hrunning hload⟩

-- The tick after power-on jumps to 00:EAEA. There is a hole, or there is an opcode that stands for
-- nothing.
theorem fails_through_memory_powerOn :
    let holed : HoledMemory := ⟨⟨fun _ => 0xEA⟩, ⟨0, 0xEAEA⟩⟩
    let erased : Processor := { powerOn with opcodes := OpcodeTable.standard.erase 0xEA }
    let flat : FlatMemory := ⟨fun _ => 0xEA⟩
    (powerOn.tick holed).1 = .error (.bus (.unmappedCartridgeRead ⟨0, 0xEAEA⟩)) ∧
      Explains (accesses (Execution.tick powerOn.opcodes) (powerOn.machine holed))
        (powerOn.tick holed).1 ∧
      ∃ taken entered, acknowledge (erased.machine flat) = (.ok taken, entered) ∧
        erased.StopsAt flat entered 0xEA flat := by
  refine ⟨rfl, (fails_through_memory _ _).1 rfl, some .reset, _, rfl, ?_⟩
  exact (fails_through_memory _ _).2.2 0xEA (some .reset) _ _ rfl rfl rfl rfl

end Processor

end Console816
