import Console816.Proofs.Instruction.Matrix
import Console816.Proofs.Processor.EntryAccesses
import Console816.Proofs.Processor.Invariants

namespace Console816

theorem OpcodeTable.matrix_cycles :
    (matrix.toList.all fun row => decide (0 < row.2.2.toNat)) = true := by
  decide +kernel

theorem OpcodeTable.cycles_pos {opcode : UInt8} {operation : Operation}
    (hget : standard.get? opcode = some operation) : 0 < operation.cycles.toNat := by
  simpa using List.all_eq_true.mp matrix_cycles _ (row_of_standard hget).2

namespace Execution

variable {μ α β : Type}

-- Work takes no cycle back, whether it fails or not.
def Counts (work : Execution μ α) : Prop :=
  ∀ count, Keeps (fun machine => count ≤ machine.cycles) work

-- Work that succeeds has taken time.
def Spends (work : Execution μ α) : Prop :=
  ∀ machine value after, work machine = (.ok value, after) → machine.cycles < after.cycles

theorem Counts.le {work : Execution μ α} (hwork : Counts work) (machine : Machine μ) :
    machine.cycles ≤ (work machine).2.cycles :=
  hwork machine.cycles machine (Nat.le_refl _)

theorem Counts.charge (cycles : Nat) : Counts (charge cycles : Execution μ Unit) :=
  fun _ _ hcount => Nat.le_trans hcount (Nat.le_add_right ..)

theorem Counts.modifyInterrupts (change : InterruptState → InterruptState) :
    Counts (modifyInterrupts change : Execution μ Unit) :=
  fun _ _ hcount => hcount

section Memory

variable [Memory μ]

theorem Counts.loadByte (address : Address) : Counts (loadByte address : Execution μ UInt8) := by
  intro count machine hcount
  unfold Execution.loadByte
  split <;> exact hcount

theorem Counts.storeByte (address : Address) (value : UInt8) :
    Counts (storeByte address value : Execution μ Unit) := by
  intro count machine hcount
  unfold Execution.storeByte
  split <;> exact hcount

theorem Counts.composes :
    Composes fun (work : Execution μ _) (_ : Execution μ _) => Counts work where
  pure value _ := .pure value
  bind hfirst hnext count := (hfirst count).bind fun value => hnext value count
  registers _ := .registers
  charge := .charge
  loadByte := .loadByte
  modifyRegisters _ _ _ hcount := hcount
  storeByte := .storeByte
  throw error _ := .throw error
  waits := .modifyInterrupts _
  stops := .modifyInterrupts _

end Memory

namespace Spends

theorem charge {cycles : Nat} (hcycles : 0 < cycles) :
    Spends (charge cycles : Execution μ Unit) := by
  intro machine value after hcharge
  cases hcharge
  exact Nat.lt_add_of_pos_right hcycles

-- It is enough that one of two parts takes time.

theorem bind_left {first : Execution μ α} {next : α → Execution μ β} (hfirst : Spends first)
    (hnext : ∀ value, Counts (next value)) : Spends (first >>= next) := by
  intro machine result after hbind
  obtain ⟨value, between, hone, hrest⟩ := of_bind_ok hbind
  have hless := hfirst machine value between hone
  have hmore := (hnext value).le between
  rw [hrest] at hmore
  exact Nat.lt_of_lt_of_le hless hmore

theorem bind_right {first : Execution μ α} {next : α → Execution μ β} (hfirst : Counts first)
    (hnext : ∀ value, Spends (next value)) : Spends (first >>= next) := by
  intro machine result after hbind
  obtain ⟨value, between, hone, hrest⟩ := of_bind_ok hbind
  have hmore := hfirst.le machine
  rw [hone] at hmore
  exact Nat.lt_of_le_of_lt hmore (hnext value between result after hrest)

variable [Memory μ]

theorem enterReset : Spends (enterReset : Execution μ Unit) := by
  have hreset : Counts (modifyRegisters Registers.reset : Execution μ Unit) :=
    Counts.composes.modifyRegisters .reset
  exact bind_right (.modifyInterrupts _) fun _ => bind_right hreset fun _ =>
    bind_right (Counts.composes.loadVector _ _) fun _ => charge (by decide)

theorem enterHandler (interrupt : Interrupt) :
    Spends (enterHandler interrupt : Execution μ Unit) := by
  have composes := Counts.composes (μ := μ)
  refine bind_right composes.registers fun r => ?_
  have hrest {cycles : Nat} (hcycles : 0 < cycles) :=
    bind_right (composes.pushWord r.pc) fun _ =>
    bind_right (composes.pushByte (pushedStatus interrupt r)) fun _ =>
    bind_right (composes.modifyRegisters .handler) fun _ =>
    bind_right (composes.loadVector interrupt r.emulation) fun _ => charge hcycles
  dsimp only
  split
  · exact hrest (by decide)
  · exact bind_right (composes.pushByte r.k) fun _ => hrest (by decide)

theorem enter (interrupt : Interrupt) : Spends (enter interrupt : Execution μ Unit) := by
  cases interrupt with
  | reset => exact enterReset
  | nmi | abort | irq | brk | cop => exact enterHandler _

-- BRK and COP take the time of their entry, all others at least that of the table.
theorem run {instruction : Instruction} (hcycles : 0 < instruction.operation.cycles.toNat) :
    Spends (run instruction : Execution μ Unit) := by
  have composes := Counts.composes (μ := μ).toComposesThrows
  have hregular := instruction.operation.mnemonic.action_regular
  unfold Execution.run baseCycles
  cases haction : instruction.operation.mnemonic.action with
  | raise interrupt => exact bind_right (.charge _) fun _ => enter interrupt
  | wait => exact bind_left (charge hcycles) fun _ => Counts.composes.wait
  | stop => exact bind_left (charge hcycles) fun _ => Counts.composes.stops
  | _ =>
      rw [haction] at hregular
      exact bind_left (charge hcycles) fun _ =>
        composes.perform instruction hregular nofun nofun nofun

end Spends

end Execution

end Console816
