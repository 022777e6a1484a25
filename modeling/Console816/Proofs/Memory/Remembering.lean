import Console816.Proofs.Processor.Footprints

namespace Console816

-- The same machine on a flat memory with the bytes that are seen.
def Machine.flattened {μ : Type} (byte : μ → Address → UInt8) (machine : Machine μ) :
    Machine FlatMemory :=
  { machine with memory := ⟨byte machine.memory⟩ }

namespace Execution

variable {μ α : Type} [Memory μ] {byte : μ → Address → UInt8}

-- A view of memory in which a load gives what was stored last, and nothing fails.
structure Remembers (byte : μ → Address → UInt8) : Prop extends ByteView byte where
  loads : ∀ address memory, (Memory.load address memory).1 = .ok (byte memory address)
  stores : ∀ address value memory, (Memory.store address value memory).1 = .ok () ∧
    byte (Memory.store address value memory).2 address = value

theorem remembers_flat : Remembers FlatMemory.byte where
  toByteView := byteView_flat
  loads _ _ := rfl
  stores address value memory := ⟨rfl, memory.set_byte_self address value⟩

-- The same accesses have led to the same bytes.
def SeenFlat (byte : μ → Address → UInt8) (log : AccessLog μ) (flat : AccessLog FlatMemory) :
    Prop :=
  byte log.memory = flat.memory.byte ∧ log.accesses = flat.accesses

namespace Remembers

variable (hremembers : Remembers byte)
include hremembers

theorem byte_store (address : Address) (value : UInt8) (memory : μ) :
    byte (Memory.store address value memory).2 =
      (FlatMemory.set ⟨byte memory⟩ address value).byte := by
  funext other
  by_cases hother : other = address
  · subst hother
    rw [FlatMemory.set_byte_self]
    exact (hremembers.stores other value memory).2
  · rw [FlatMemory.set_byte_of_ne _ _ hother]
    exact hremembers.store address value memory other hother

theorem lockstep : Lockstep (fun _ => True) (SeenFlat byte) where
  changed _ _ := trivial
  loaded address log flat hseen := by
    obtain ⟨memory, accesses⟩ := log
    obtain ⟨⟨_⟩, accesses'⟩ := flat
    obtain ⟨rfl, rfl⟩ : byte memory = _ ∧ accesses = accesses' := hseen
    have hanswer := hremembers.loads address memory
    refine ⟨hanswer, hremembers.load address memory, ?_⟩
    exact congrArg (fun answer => accesses.push (.load address answer)) hanswer
  stored address value log flat hseen := by
    obtain ⟨memory, accesses⟩ := log
    obtain ⟨⟨_⟩, accesses'⟩ := flat
    obtain ⟨rfl, rfl⟩ : byte memory = _ ∧ accesses = accesses' := hseen
    have hanswer := (hremembers.stores address value memory).1
    refine ⟨hanswer, hremembers.byte_store address value memory, ?_⟩
    exact congrArg (fun answer => accesses.push (.store address value answer)) hanswer

end Remembers

-- What is seen of a piece of work: its answer, and the registers, the bytes and the accesses that
-- it leaves behind.
structure Outcome (α : Type) where
  answer : Except ProcessorError α
  registers : Registers
  byte : Address → UInt8
  accesses : List Access

def outcome (byte : μ → Address → UInt8) (work : ∀ {ν : Type} [Memory ν], Execution ν α)
    (machine : Machine μ) : Outcome α where
  answer := (work machine).1
  registers := (work machine).2.registers
  byte := byte (work machine).2.memory
  accesses := accesses work machine

-- Work on a memory that remembers is seen to be work on a flat one.
theorem Remembers.outcome_eq (hremembers : Remembers byte)
    {work : ∀ {ν : Type} [Memory ν], Execution ν α}
    (hwork : ∀ {ν ν' : Type} [Memory ν] [Memory ν'] {kept : Registers → Prop}
      {related : ν → ν' → Prop}, Lockstep kept related → Matched (Alike kept related) work work)
    (machine : Machine μ) :
    outcome byte work machine = outcome FlatMemory.byte work (machine.flattened byte) := by
  obtain ⟨hanswer, hafter⟩ := hwork hremembers.lockstep machine.logged
    (machine.flattened byte).logged ⟨rfl, rfl, rfl, trivial, rfl, rfl⟩
  obtain ⟨hbyte, haccesses⟩ := hafter.memory
  have hlogs := Logs.eq_unlogged (hwork lockstep_log) machine
  have hflat := Logs.eq_unlogged (hwork lockstep_log) (machine.flattened byte)
  simp only [outcome, accesses_eq, hlogs, hflat, Machine.unlogged, hanswer, hafter.registers, hbyte,
    haccesses]

end Execution

end Console816
