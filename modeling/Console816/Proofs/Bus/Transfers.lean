import Console816.Proofs.Bus.Steady
import Console816.Proofs.Processor.Lockstep

namespace Console816

namespace DmaChannel

-- What a complete run of the channel costs the processor: a cycle per byte and one more.
def charge (channel : DmaChannel) : Nat := channel.transferSize + 1

def charges : List DmaChannel → Nat
  | [] => 0
  | channel :: rest => channel.charge + charges rest

theorem charges_append (first second : List DmaChannel) :
    charges (first ++ second) = charges first + charges second := by
  induction first with
  | nil => exact (Nat.zero_add _).symm
  | cons channel rest ih => simp only [List.cons_append, charges, ih, Nat.add_assoc]

-- Counted in 32 bits, as the processor's pause is.
theorem toUInt32_charges_append (first second : List DmaChannel) :
    (charges (first ++ second)).toUInt32 =
      (charges first).toUInt32 + (charges second).toUInt32 := by
  rw [charges_append]
  exact UInt32.ofNat_add _ _

theorem charges_eq_zero {channels : List DmaChannel} : charges channels = 0 ↔ channels = [] := by
  cases channels with
  | nil => simp [charges]
  | cons channel rest => simp [charges, charge]

end DmaChannel

namespace Bus

open DmaChannel

-- The channels, as they were set up, that run to their ends. The first that fails is the last.
def completed (bus : Bus) : List (Fin 8) → List DmaChannel
  | [] => []
  | index :: indices =>
    match bus.runChannel index with
    | (.ok _, after) => bus.io.channels.get index :: after.completed indices
    | (.error _, _) => []

-- Those that a store makes run.
def completedBy (bus : Bus) (address : Address) (value : UInt8) : List DmaChannel :=
  match bus.responder address with
  | .ioRegister offset =>
    match IoRegisters.startedChannels offset value with
    | some mask => { bus with io := bus.io.write offset value }.completed (selected mask)
    | none => []
  | _ => []

-- The bytes of a transfer leave the I/O registers alone, and do not pause the processor until all
-- of them are through.
structure Undisturbed (bus after : Bus) : Prop where
  io : after.io = bus.io
  pause : after.pause = bus.pause

namespace Undisturbed

theorem refl (bus : Bus) : Undisturbed bus bus := ⟨rfl, rfl⟩

theorem trans {bus middle after : Bus} (hfirst : Undisturbed bus middle)
    (hsecond : Undisturbed middle after) : Undisturbed bus after :=
  ⟨hsecond.io.trans hfirst.io, hsecond.pause.trans hfirst.pause⟩

end Undisturbed

section Undisturbed

variable (bus : Bus)

theorem undisturbed_readB (register : UInt8) : Undisturbed bus (bus.readB register).2 := by
  unfold readB
  split
  · exact ⟨rfl, rfl⟩
  · exact .refl bus

theorem undisturbed_writeB (register value : UInt8) :
    Undisturbed bus (bus.writeB register value) := by
  unfold writeB
  split
  · exact ⟨rfl, rfl⟩
  · split <;> exact ⟨rfl, rfl⟩

theorem undisturbed_readCartridge (address : Address) :
    Undisturbed bus (bus.readCartridge address).2 := by
  unfold readCartridge
  split
  · exact .refl bus
  · split <;> exact ⟨rfl, rfl⟩

theorem undisturbed_writeCartridge (address : Address) (value : UInt8) :
    Undisturbed bus (bus.writeCartridge address value) := by
  unfold writeCartridge
  split <;> exact ⟨rfl, rfl⟩

-- The A side does not come to the registers, which is where a read would clear the NMI flag and a
-- write would change a register.

theorem undisturbed_readA (address : Address) : Undisturbed bus (bus.readA address).2 := by
  unfold readA read
  cases bus.responder address with
  | workRam index => exact ⟨rfl, rfl⟩
  | bRegister register => exact .refl bus
  | ioRegister offset => exact .refl bus
  | cartridge => exact bus.undisturbed_readCartridge address
  | nobody => exact .refl bus

theorem undisturbed_writeA (address : Address) (value : UInt8) :
    Undisturbed bus (bus.writeA address value) := by
  unfold writeA
  split
  · exact ⟨rfl, rfl⟩
  · exact bus.undisturbed_writeCartridge address value
  · exact .refl bus

theorem respected_undisturbed : Respected Undisturbed where
  refl := .refl
  trans := .trans
  readB := undisturbed_readB
  writeB := undisturbed_writeB
  readA := undisturbed_readA
  writeA := undisturbed_writeA

end Undisturbed

section Pause

variable (bus : Bus)

theorem pause_read (address : Address) : (bus.read address).2.pause = bus.pause := by
  have hhold (answer : Option UInt8 × Bus) : (holdIfAny answer).2.pause = answer.2.pause := by
    rcases answer with ⟨value, after⟩
    cases value <;> rfl
  unfold read
  split
  · rfl
  · rw [hhold, (bus.undisturbed_readB _).pause]
  · exact hhold _
  · exact (bus.undisturbed_readCartridge address).pause
  · rfl

variable {bus} in
theorem pause_of_runChannel {index : Fin 8} {answer : Except BusError Unit} {after : Bus}
    (hrun : bus.runChannel index = (answer, after)) :
    after.pause = bus.pause +
      if answer.isOk then (bus.io.channels.get index).charge.toUInt32 else 0 := by
  have hbytes := (respected_undisturbed.transferBytes bus bus.io.channels[index] 0
    bus.io.channels[index].aOffset bus.io.channels[index].transferSize).pause
  simp only [runChannel] at hrun
  rcases hstep : bus.transferBytes bus.io.channels[index] 0 bus.io.channels[index].aOffset
    bus.io.channels[index].transferSize with ⟨outcome, between⟩
  rw [hstep] at hrun hbytes
  cases outcome with
  | ok offset =>
      cases hrun
      change between.pause + bus.io.channels[index].charge.toUInt32 = _
      rw [hbytes]
      rfl
  | error error =>
      cases hrun
      exact hbytes.trans (UInt32.add_zero _).symm

-- A channel that fails adds nothing, and those before it keep their charges.
theorem pause_runChannels (indices : List (Fin 8)) :
    (bus.runChannels indices).2.pause =
      bus.pause + (charges (bus.completed indices)).toUInt32 := by
  induction indices generalizing bus with
  | nil => exact (UInt32.add_zero _).symm
  | cons index indices ih =>
      unfold runChannels completed
      rcases hstep : bus.runChannel index with ⟨answer, after⟩
      have hchannel := pause_of_runChannel hstep
      cases answer with
      | ok =>
          have hafter : after.pause = bus.pause + (bus.io.channels.get index).charge.toUInt32 :=
            hchannel
          refine (ih after).trans ?_
          rw [hafter, UInt32.add_assoc]
          exact congrArg (bus.pause + ·) (UInt32.ofNat_add _ _).symm
      | error error => exact hchannel

theorem pause_write (address : Address) (value : UInt8) :
    (bus.write address value).2.pause =
      bus.pause + (charges (bus.completedBy address value)).toUInt32 := by
  have hnone {after : Bus} (hsame : after.pause = bus.pause) :
      after.pause = bus.pause + (charges []).toUInt32 :=
    hsame.trans (UInt32.add_zero _).symm
  unfold write completedBy
  cases bus.responder address with
  | workRam index => exact hnone rfl
  | bRegister register => exact hnone (bus.undisturbed_writeB register value).pause
  | ioRegister offset =>
      dsimp only
      cases IoRegisters.startedChannels offset value with
      | none => exact hnone rfl
      | some mask => exact pause_runChannels ..
  | cartridge => exact hnone (bus.undisturbed_writeCartridge address value).pause
  | nobody => exact hnone rfl

end Pause

-- A bus that keeps count of the channels that run to their ends.
structure Metered where
  bus : Bus
  completed : List DmaChannel

instance : Memory Metered where
  load address metered :=
    let (answer, bus) := metered.bus.read address
    (answer, { metered with bus })
  store address value metered :=
    let (answer, bus) := metered.bus.write address value
    (answer, ⟨bus, metered.completed ++ metered.bus.completedBy address value⟩)

-- Counting changes nothing, and the pause has grown by the charges.
structure Metered.Counts (start : Bus) (metered : Metered) (bus : Bus) : Prop where
  same : metered.bus = bus
  pause : bus.pause = start.pause + (charges metered.completed).toUInt32

theorem lockstep_metered (start : Bus) :
    Execution.Lockstep (fun _ => True) (Metered.Counts start) where
  changed _ _ := trivial
  loaded address metered bus hcounts := by
    obtain ⟨rfl, hpause⟩ := hcounts
    exact ⟨rfl, rfl, (metered.bus.pause_read address).trans hpause⟩
  stored address value metered bus hcounts := by
    obtain ⟨rfl, hpause⟩ := hcounts
    refine ⟨rfl, rfl, ?_⟩
    have hwrite := metered.bus.pause_write address value
    rw [hpause, UInt32.add_assoc, ← toUInt32_charges_append] at hwrite
    exact hwrite

end Bus

end Console816
