import Console816.Proofs.Bus.Channels
import Console816.Proofs.Bus.Commands
import Console816.Proofs.Bus.Routing
import Console816.Proofs.Bus.Transfers

namespace Console816

-- Stores that are let to start transfers, whose own stores are let to start transfers again. Where
-- there is no end to it, they have no answer.
abbrev Stores := Bus → Address → UInt8 → Option (Except BusError Unit × Bus)

namespace Stores

variable (store : Stores)

-- Transfers whose A side stores, wherever there are no registers.

def writeA : Stores := fun bus address value =>
  match bus.responder address with
  | .bRegister _ | .ioRegister _ => some (.ok (), bus)
  | _ => store bus address value

def transferByte (bus : Bus) (channel : DmaChannel) (index : Nat) (offset : UInt16) :
    Option (Except BusError Unit × Bus) :=
  let register := channel.bRegister index
  let address : Address := ⟨channel.aBank, offset⟩
  if channel.towardsA then
    let (value, bus) := bus.readB register
    store.writeA bus address (value.getD bus.latch)
  else
    match bus.readA address with
    | (.ok value, bus) => some (.ok (), bus.writeB register value)
    | (.error error, bus) => some (.error error, bus)

def transferBytes (bus : Bus) (channel : DmaChannel) (index : Nat) (offset : UInt16) :
    Nat → Option (Except BusError UInt16 × Bus)
  | 0 => some (.ok offset, bus)
  | remaining + 1 =>
    match store.transferByte bus channel index offset with
    | some (.ok _, bus) =>
      transferBytes bus channel (index + 1) (channel.nextOffset offset) remaining
    | some (.error error, bus) => some (.error error, bus)
    | none => none

def runChannel (bus : Bus) (index : Fin 8) : Option (Except BusError Unit × Bus) :=
  let channel := bus.io.channels.get index
  match store.transferBytes bus channel 0 channel.aOffset channel.transferSize with
  | some (.ok offset, bus) => some (.ok (), bus.finishTransfer index channel offset)
  | some (.error error, bus) => some (.error error, bus)
  | none => none

def runChannels (bus : Bus) : List (Fin 8) → Option (Except BusError Unit × Bus)
  | [] => some (.ok (), bus)
  | index :: indices =>
    match store.runChannel bus index with
    | some (.ok _, bus) => runChannels bus indices
    | some (.error error, bus) => some (.error error, bus)
    | none => none

-- Transfers within transfers, down to a depth. At depth 0 none can be started.
def within (depth : Nat) : Stores := fun bus address value =>
  match bus.responder address with
  | .ioRegister offset =>
    let bus := { bus with io := bus.io.write offset value }
    match IoRegisters.startedChannels offset value with
    | some mask =>
      match depth with
      | 0 => none
      | depth + 1 => (within depth).runChannels bus (Bus.selected mask)
    | none => some (.ok (), bus)
  | _ => some (bus.write address value)

-- Where it is not stored to registers, only memory is changed.
def Plain : Prop :=
  ∀ bus address value, (∀ register, bus.responder address ≠ .bRegister register) →
    (∀ offset, bus.responder address ≠ .ioRegister offset) →
    store bus address value = some (.ok (), bus.writeA address value)

theorem plain_within (depth : Nat) : (within depth).Plain := by
  intro bus address value hb hio
  unfold within Bus.write Bus.writeA
  cases hresponder : bus.responder address with
  | bRegister register => exact absurd hresponder (hb register)
  | ioRegister offset => exact absurd hresponder (hio offset)
  | workRam | cartridge | nobody => rfl

section Plain

variable {store} (hplain : store.Plain)
include hplain

theorem writeA_eq (bus : Bus) (address : Address) (value : UInt8) :
    store.writeA bus address value = some (.ok (), bus.writeA address value) := by
  have hstore := hplain bus address value
  unfold writeA
  cases hresponder : bus.responder address with
  | bRegister | ioRegister => simp only [Bus.writeA, hresponder]
  | workRam | cartridge | nobody => exact hstore (by simp [hresponder]) (by simp [hresponder])

theorem transferByte_eq (bus : Bus) (channel : DmaChannel) (index : Nat) (offset : UInt16) :
    store.transferByte bus channel index offset = some (bus.transferByte channel index offset) := by
  simp only [transferByte, Bus.transferByte, writeA_eq hplain]
  split
  · rfl
  · rcases bus.readA ⟨channel.aBank, offset⟩ with ⟨answer, after⟩
    cases answer <;> rfl

theorem transferBytes_eq (bus : Bus) (channel : DmaChannel) (index : Nat) (offset : UInt16)
    (count : Nat) : store.transferBytes bus channel index offset count =
      some (bus.transferBytes channel index offset count) := by
  induction count generalizing bus index offset with
  | zero => rfl
  | succ remaining ih =>
      simp only [transferBytes, Bus.transferBytes, transferByte_eq hplain, ih]
      rcases bus.transferByte channel index offset with ⟨answer, after⟩
      cases answer <;> rfl

theorem runChannel_eq (bus : Bus) (index : Fin 8) :
    store.runChannel bus index = some (bus.runChannel index) := by
  simp only [runChannel, Bus.runChannel, transferBytes_eq hplain]
  rcases bus.transferBytes _ _ _ _ with ⟨answer, after⟩
  cases answer <;> rfl

theorem runChannels_eq (bus : Bus) (indices : List (Fin 8)) :
    store.runChannels bus indices = some (bus.runChannels indices) := by
  induction indices generalizing bus with
  | nil => rfl
  | cons index indices ih =>
      simp only [runChannels, Bus.runChannels, runChannel_eq hplain, ih]
      rcases bus.runChannel index with ⟨answer, after⟩
      cases answer <;> rfl

end Plain

-- No store of a transfer starts another one, so that one level is as good as any number of them.
theorem within_succ (depth : Nat) (bus : Bus) (address : Address) (value : UInt8) :
    within (depth + 1) bus address value = some (bus.write address value) := by
  unfold within Bus.write
  cases bus.responder address with
  | ioRegister offset =>
      dsimp only
      cases IoRegisters.startedChannels offset value with
      | some mask => exact runChannels_eq (plain_within depth) _ _
      | none => rfl
  | workRam | bRegister | cartridge | nobody => rfl

-- It does take that level, wherever transfers are started.
theorem within_zero (bus : Bus) (address : Address) (value : UInt8) :
    within 0 bus address value =
      if bus.responder address = .ioRegister 0x420B ∧ value ≠ 0 then none
      else some (bus.write address value) := by
  unfold within Bus.write
  cases bus.responder address with
  | ioRegister offset =>
      simp only [Responder.ioRegister.injEq, IoRegisters.startedChannels]
      by_cases hstarts : offset = 0x420B ∧ value ≠ 0
      · rw [if_pos hstarts, if_pos hstarts]
      · rw [if_neg hstarts, if_neg hstarts]
  | workRam | bRegister | cartridge | nobody => rfl

end Stores

namespace DmaChannel

variable (channel : DmaChannel)

-- The channel after a complete run. The A side is where the next byte would have been.
def finished : DmaChannel :=
  (channel.setAOffset (channel.offsetAt channel.transferSize)).setByteCount 0

theorem getElem_finished {i : Nat} (hi : i < 16) :
    channel.finished.registers[i] =
      if i = 2 then Word.low (channel.offsetAt channel.transferSize)
      else if i = 3 then Word.high (channel.offsetAt channel.transferSize)
      else if i = 5 ∨ i = 6 then 0
      else channel.registers[i] := by
  have hlow : Word.low 0 = 0 := rfl
  have hhigh : Word.high 0 = 0 := rfl
  simp only [finished, setByteCount, setAOffset, getElem_setRegister, hlow, hhigh]
  grind

end DmaChannel

namespace IoRegisters

-- The registers after some of the channels have come to their ends.
structure Finishes (io : IoRegisters) (done : List (Fin 8)) (after : IoRegisters) : Prop where
  finished : ∀ index ∈ done, after.channels.get index = (io.channels.get index).finished
  kept : ∀ index ∉ done, after.channels.get index = io.channels.get index
  rest : after = { io with channels := after.channels }

namespace Finishes

variable {io middle after : IoRegisters} {index : Fin 8}

theorem nil (io : IoRegisters) : Finishes io [] io where
  finished _ hin := absurd hin List.not_mem_nil
  kept _ _ := rfl
  rest := rfl

theorem single (hafter : after =
    { io with channels := io.channels.set index (io.channels.get index).finished index.isLt }) :
    Finishes io [index] after where
  finished other hother := by
    rw [List.mem_singleton.mp hother, hafter]
    exact Vector.getElem_set_self index.isLt
  kept other hother := by
    have hne : index.val ≠ other.val := fun heq =>
      hother (List.mem_singleton.mpr (Fin.ext heq.symm))
    rw [hafter]
    exact Vector.getElem_set_ne index.isLt other.isLt hne
  rest := by rw [hafter]

theorem cons {indices : List (Fin 8)} (hfirst : Finishes io [index] middle)
    (hnew : index ∉ indices) (hrest : Finishes middle indices after) :
    Finishes io (index :: indices) after where
  finished other hother := by
    rcases List.mem_cons.mp hother with rfl | hlater
    · rw [hrest.kept other hnew, hfirst.finished other List.mem_cons_self]
    · have hne : other ∉ [index] := fun heq => hnew (List.mem_singleton.mp heq ▸ hlater)
      rw [hrest.finished other hlater, hfirst.kept other hne]
  kept other hother := by
    obtain ⟨hne, hlater⟩ := not_or.mp (mt List.mem_cons.mpr hother)
    rw [hrest.kept other hlater, hfirst.kept other (mt List.mem_singleton.mp hne)]
  rest := by rw [hrest.rest, hfirst.rest]

end Finishes

end IoRegisters

namespace Bus

open IoRegisters (Finishes)

variable {bus after : Bus}

-- The channels that are set in a mask, the lowest first and none of them twice.

theorem mem_selected (mask : UInt8) (index : Fin 8) :
    index ∈ selected mask ↔ mask.toNat.testBit index := by
  simp only [selected, List.mem_filter, List.mem_finRange, true_and]

theorem ascending_selected (mask : UInt8) : (selected mask).Pairwise (· < ·) :=
  (List.pairwise_lt_finRange 8).filter _

theorem offset_of_transferBytes {channel : DmaChannel} {index count : Nat} {offset : UInt16}
    (hbytes : bus.transferBytes channel index (channel.offsetAt index) count =
      (.ok offset, after)) :
    offset = channel.offsetAt (index + count) := by
  induction count generalizing bus index with
  | zero =>
      cases hbytes
      rfl
  | succ remaining ih =>
      unfold transferBytes at hbytes
      rcases hstep : bus.transferByte channel index (channel.offsetAt index) with ⟨answer, between⟩
      rw [hstep] at hbytes
      cases answer with
      | ok =>
          rw [DmaChannel.nextOffset_offsetAt] at hbytes
          rw [ih hbytes, Nat.add_assoc, Nat.add_comm 1]
      | error error => cases hbytes

theorem io_finishTransfer (bus : Bus) (index : Fin 8) (channel : DmaChannel) :
    (bus.finishTransfer index channel (channel.offsetAt channel.transferSize)).io =
      { bus.io with channels := bus.io.channels.set index channel.finished index.isLt } :=
  rfl

-- A channel that comes to its end is finished, one that fails is left as it was. None of the others
-- are touched, nor the rest of the I/O registers.
theorem io_of_runChannel {index : Fin 8} {answer : Except BusError Unit}
    (hrun : bus.runChannel index = (answer, after)) :
    after.io =
      if answer.isOk then
        { bus.io with
          channels := bus.io.channels.set index (bus.io.channels.get index).finished index.isLt }
      else bus.io := by
  have hbytes := (respected_undisturbed.transferBytes bus bus.io.channels[index] 0
    bus.io.channels[index].aOffset bus.io.channels[index].transferSize).io
  simp only [runChannel] at hrun
  rcases hstep : bus.transferBytes bus.io.channels[index] 0 bus.io.channels[index].aOffset
    bus.io.channels[index].transferSize with ⟨outcome, between⟩
  rw [hstep] at hrun hbytes
  cases outcome with
  | ok offset =>
      rw [← DmaChannel.offsetAt_zero] at hstep
      have hoffset := offset_of_transferBytes hstep
      rw [Nat.zero_add] at hoffset
      subst hoffset
      obtain ⟨rfl, rfl⟩ := Prod.mk.inj hrun
      have hsame : between.io = bus.io := hbytes
      rw [io_finishTransfer, hsame]
      rfl
  | error error =>
      cases hrun
      exact hbytes

-- Channels that come to their ends, one after the other.
inductive RunsTo : Bus → List (Fin 8) → Bus → Prop
  | nil (bus : Bus) : RunsTo bus [] bus
  | cons {bus middle after : Bus} {index : Fin 8} {indices : List (Fin 8)}
      (hrun : bus.runChannel index = (.ok (), middle)) (hrest : RunsTo middle indices after) :
      RunsTo bus (index :: indices) after

-- What is left to run when the transfers end: nothing, or the channel that fails and all after it.
def StopsAt (bus : Bus) (answer : Except BusError Unit × Bus) : List (Fin 8) → Prop
  | [] => answer = (.ok (), bus)
  | failed :: _ => bus.runChannel failed = answer ∧ ∃ error, answer.1 = .error error

theorem runsTo_of_runChannels (bus : Bus) (indices : List (Fin 8)) :
    ∃ done rest middle, indices = done ++ rest ∧ RunsTo bus done middle ∧
      middle.StopsAt (bus.runChannels indices) rest := by
  induction indices generalizing bus with
  | nil => exact ⟨[], [], bus, rfl, .nil bus, rfl⟩
  | cons index indices ih =>
      unfold runChannels
      rcases hrun : bus.runChannel index with ⟨answer, after⟩
      cases answer with
      | ok =>
          obtain ⟨done, rest, middle, rfl, hdone, hstops⟩ := ih after
          exact ⟨index :: done, rest, middle, rfl, .cons hrun hdone, hstops⟩
      | error error => exact ⟨[], index :: indices, bus, rfl, .nil bus, hrun, error, rfl⟩

theorem finishes_of_runsTo {done : List (Fin 8)} (hruns : RunsTo bus done after)
    (honce : done.Nodup) : Finishes bus.io done after.io := by
  induction hruns with
  | nil bus => exact .nil bus.io
  | cons hrun hrest ih =>
      obtain ⟨hnew, hindices⟩ := List.nodup_cons.mp honce
      have hfirst := Finishes.single ((io_of_runChannel hrun).trans (if_pos rfl))
      exact hfirst.cons hnew (ih hindices)

-- A channel that fails is not finished.
theorem io_of_stopsAt {answer : Except BusError Unit × Bus} {rest : List (Fin 8)}
    (hstops : bus.StopsAt answer rest) : answer.2.io = bus.io := by
  rcases answer with ⟨outcome, after⟩
  cases rest with
  | nil => exact congrArg (·.2.io) hstops
  | cons failed later =>
      obtain ⟨hrun, error, rfl⟩ := hstops
      exact io_of_runChannel hrun

-- Everything that a write to MDMAEN does to the I/O registers, with the channels that come to their
-- ends and those that do not.
structure Starts (bus : Bus) (mask : UInt8) (done rest : List (Fin 8))
    (answer : Except BusError Unit × Bus) : Prop where
  selected : ∀ index, index ∈ done ++ rest ↔ mask.toNat.testBit index
  ascending : (done ++ rest).Pairwise (· < ·)
  order : ∃ middle, RunsTo bus done middle ∧ middle.StopsAt answer rest
  finished : ∀ index ∈ done, ∀ i (hi : i < 16),
    let channel := bus.io.channels.get index
    (answer.2.io.channels.get index).registers[i] =
      if i = 2 then Word.low (channel.offsetAt channel.transferSize)
      else if i = 3 then Word.high (channel.offsetAt channel.transferSize)
      else if i = 5 ∨ i = 6 then 0
      else channel.registers[i]
  kept : ∀ index ∉ done, answer.2.io.channels.get index = bus.io.channels.get index
  io : answer.2.io = { bus.io with channels := answer.2.io.channels }

theorem starts_of_runChannels (bus : Bus) (mask : UInt8) :
    ∃ done rest, Starts bus mask done rest (bus.runChannels (selected mask)) := by
  obtain ⟨done, rest, middle, hsplit, hruns, hstops⟩ := bus.runsTo_of_runChannels (selected mask)
  have hascending := ascending_selected mask
  have hselected := mem_selected mask
  rw [hsplit] at hascending hselected
  have honce : done.Nodup := (List.pairwise_append.mp (hascending.imp Fin.ne_of_lt)).1
  obtain ⟨hfinished, hkept, hio⟩ := finishes_of_runsTo hruns honce
  rw [← io_of_stopsAt hstops] at hfinished hkept hio
  refine ⟨done, rest, {
    selected := hselected
    ascending := hascending
    order := ⟨middle, hruns, hstops⟩
    finished := fun index hindex i hi => ?_
    kept := hkept
    io := hio }⟩
  rw [hfinished index hindex]
  exact DmaChannel.getElem_finished _ hi

-- A write to MDMAEN is over after one level of transfers, none of which starts another. The
-- channels of the mask run in ascending order until one fails. Those before it are finished, and
-- that is all that has become of the I/O registers.
theorem starts_mdmaen (bus : Bus) (mask : UInt8) {bank : UInt8}
    (hbank : Address.InSystemBank ⟨bank, 0x420B⟩) :
    (Stores.within 0 bus ⟨bank, 0x420B⟩ mask = none ↔ mask ≠ 0) ∧
      (∀ depth, Stores.within (depth + 1) bus ⟨bank, 0x420B⟩ mask =
        some (bus.write ⟨bank, 0x420B⟩ mask)) ∧
      ∃ done rest, Starts bus mask done rest (bus.write ⟨bank, 0x420B⟩ mask) := by
  refine ⟨?_, fun depth => Stores.within_succ depth bus _ mask, ?_⟩
  · rw [Stores.within_zero, bus.responder_mdmaen hbank]
    simp
  have hio : bus.io.write 0x420B mask = bus.io := rfl
  have hwrite : bus.write ⟨bank, 0x420B⟩ mask = bus.runChannels (selected mask) := by
    simp only [write, bus.responder_mdmaen hbank, hio, IoRegisters.startedChannels]
    by_cases hmask : mask = 0
    · subst hmask
      rfl
    · simp [hmask]
  rw [hwrite]
  exact bus.starts_of_runChannels mask

-- Channel 0 copies one byte of ROM. Channel 1 asks for SRAM that is not there, so that it and
-- channel 2 keep their counts.
theorem starts_mdmaen_failing :
    let bus := run powerOn [.insert (Cartridge.withMapping blankRom .loRom 0),
      .write ⟨0, 0x4304⟩ 0x40, .write ⟨0, 0x4305⟩ 1, .write ⟨0, 0x4314⟩ 0x70,
      .write ⟨0, 0x4315⟩ 1, .write ⟨0, 0x4325⟩ 1]
    let answer := bus.write ⟨0x80, 0x420B⟩ 7
    Address.InSystemBank ⟨0x80, 0x420B⟩ ∧
      answer.1.isOk = false ∧
      (answer.2.io.channels.map DmaChannel.byteCount).toList = [0, 1, 1, 0, 0, 0, 0, 0] ∧
      ∃ done rest, Starts bus 7 done rest answer := by
  intro bus answer
  have hbank : Address.InSystemBank ⟨0x80, 0x420B⟩ := by decide
  obtain ⟨-, -, hstarts⟩ := starts_mdmaen bus 7 hbank
  exact ⟨hbank, by decide +kernel, by decide +kernel, hstarts⟩

end Bus

end Console816
