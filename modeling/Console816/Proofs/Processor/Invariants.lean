import Console816.Proofs.Processor.Lockstep

namespace Console816

namespace Execution

variable {μ α β : Type} {kept : Machine μ → Prop}

-- What holds of the machine holds of it afterwards, whether the work fails or not.
def Keeps (kept : Machine μ → Prop) (work : Execution μ α) : Prop :=
  ∀ machine, kept machine → kept (work machine).2

namespace Keeps

theorem pure (value : α) : Keeps kept (pure value) := fun _ hkept => hkept

theorem throw (error : ProcessorError) : Keeps kept (throw error : Execution μ α) :=
  fun _ hkept => hkept

theorem bind {first : Execution μ α} {next : α → Execution μ β} (hfirst : Keeps kept first)
    (hnext : ∀ value, Keeps kept (next value)) : Keeps kept (first >>= next) := by
  intro machine hkept
  have hafter := hfirst machine hkept
  rw [bind_apply]
  rcases hone : first machine with ⟨answer, after⟩
  rw [hone] at hafter
  cases answer with
  | ok value => exact hnext value after hafter
  | error error => exact hafter

theorem registers : Keeps kept registers := fun _ hkept => hkept

theorem isHalted : Keeps kept isHalted := fun _ hkept => hkept

end Keeps

-- What is not broken by reaching for bytes and counting cycles.
structure InvariantReads [Memory μ] (kept : Machine μ → Prop) : Prop where
  charged : ∀ {machine}, kept machine → ∀ cycles, kept { machine with cycles }
  loaded : ∀ {machine}, kept machine → ∀ address,
    kept { machine with memory := (Memory.load address machine.memory).2 }

-- Nor by changing registers and bytes.
structure InvariantWrites [Memory μ] (kept : Machine μ → Prop) : Prop
    extends InvariantReads kept where
  changed : ∀ {machine}, kept machine → ∀ registers, kept { machine with registers }
  stored : ∀ {machine}, kept machine → ∀ address value,
    kept { machine with memory := (Memory.store address value machine.memory).2 }

-- Nor by halting the processor, so that no instruction can break it.
structure Invariant [Memory μ] (kept : Machine μ → Prop) : Prop extends InvariantWrites kept where
  halted : ∀ {machine}, kept machine → ∀ waiting stopped,
    kept { machine with interrupts := ⟨machine.interrupts.pending, waiting, stopped⟩ }

variable [Memory μ]

theorem InvariantReads.composes (invariant : InvariantReads kept) :
    ComposesReads fun (work : Execution μ _) (_ : Execution μ _) => Keeps kept work where
  pure := .pure
  bind := .bind
  registers := .registers
  charge _ _ hkept := invariant.charged hkept _
  loadByte address machine hkept := by
    have hafter := invariant.loaded hkept address
    unfold Execution.loadByte
    rcases hload : Memory.load address machine.memory with ⟨answer, memory⟩
    rw [hload] at hafter
    cases answer <;> exact hafter

theorem InvariantWrites.composes (invariant : InvariantWrites kept) :
    ComposesThrows fun (work : Execution μ _) (_ : Execution μ _) => Keeps kept work where
  toComposesReads := invariant.toInvariantReads.composes
  modifyRegisters _ _ hkept := invariant.changed hkept _
  storeByte address value machine hkept := by
    have hafter := invariant.stored hkept address value
    unfold Execution.storeByte
    rcases hstore : Memory.store address value machine.memory with ⟨answer, memory⟩
    rw [hstore] at hafter
    cases answer <;> exact hafter
  throw := .throw

-- A reset is left to those who know what it does to the interrupts.
theorem Invariant.composes (invariant : Invariant kept) :
    Composes fun (work : Execution μ _) (_ : Execution μ _) => Keeps kept work where
  toComposesThrows := invariant.toInvariantWrites.composes
  waits _ hkept := invariant.halted hkept true _
  stops _ hkept := invariant.halted hkept _ true

end Execution

end Console816
