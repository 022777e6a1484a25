import Console816.Proofs.Bus.Channels
import Console816.Proofs.Bus.RandomAccess

namespace Console816

namespace Cartridge

variable {cartridge : Cartridge} {address : Address}

theorem answers_of_place (hshown : cartridge.place address ≠ .nothing) :
    cartridge.mapping.Answers address :=
  Decidable.byContradiction fun hanswers => hshown (if_neg hanswers)

theorem place_cases (hshown : cartridge.place address ≠ .nothing) :
    cartridge.place address = .rom ∨ ∃ index, cartridge.place address = .ram (.sram index) := by
  unfold place at hshown ⊢
  grind

theorem place_congr {other : Cartridge} (hhardware : other.hardware = cartridge.hardware) :
    other.place address = cartridge.place address := by
  obtain ⟨-, hmapping, hsize⟩ := Hardware.mk.inj hhardware
  rw [place, place, hmapping, hsize]

-- Wherever a cartridge shows something, it can be read.
theorem read_of_place (hshown : cartridge.place address ≠ .nothing) :
    ∃ value, cartridge.read address = .ok value := by
  rw [place_eq] at hshown
  unfold read
  cases hcell : cartridge.mapping.cell? address with
  | none => simp [hcell] at hshown
  | some cell =>
      cases cell with
      | rom index => exact ⟨_, rfl⟩
      | sram index =>
          cases hfound : cartridge.sramIndex? index with
          | none => simp [hcell, hfound] at hshown
          | some found => simp [hfound]

theorem read_congr {other : Cartridge} (hhardware : other.hardware = cartridge.hardware)
    (hsram : ∀ index, other.sram.get! index = cartridge.sram.get! index) :
    other.read address = cartridge.read address := by
  obtain ⟨hrom, hmapping, hsize⟩ := Hardware.mk.inj hhardware
  simp only [read, sramIndex?, hrom, hmapping, hsize, hsram]

end Cartridge

namespace Bus

variable {bus : Bus} {cartridge : Cartridge} {address : Address}

theorem responder_of_place (hin : bus.cartridge = some cartridge)
    (hshown : cartridge.place address ≠ .nothing) : bus.responder address = .cartridge :=
  (responder_eq_cartridge_iff hin address).mpr (Cartridge.answers_of_place hshown)

theorem place_of_cartridge (hin : bus.cartridge = some cartridge)
    (hshown : cartridge.place address ≠ .nothing) :
    bus.place address = cartridge.place address := by
  rw [place_eq, responder_of_place hin hshown, hin]

theorem peek_of_cartridge (hin : bus.cartridge = some cartridge)
    (hshown : cartridge.place address ≠ .nothing) :
    cartridge.read address = .ok (bus.peek address) := by
  obtain ⟨value, hread⟩ := Cartridge.read_of_place hshown
  simp only [peek, responder_of_place hin hshown, hin, Option.bind_some, hread, Except.toOption,
    Option.getD_some]

theorem readA_of_cartridge (hin : bus.cartridge = some cartridge)
    (hshown : cartridge.place address ≠ .nothing) :
    bus.readA address = (.ok (bus.peek address), bus.hold (bus.peek address)) := by
  have hresponder := responder_of_place hin hshown
  have hread := peek_of_cartridge hin hshown
  simp only [readA, read, hresponder, readCartridge, hin, hread]

theorem writeA_of_cartridge (hin : bus.cartridge = some cartridge)
    (hshown : cartridge.place address ≠ .nothing) (value : UInt8) :
    bus.writeA address value = (bus.write address value).2 := by
  simp only [writeA, write, responder_of_place hin hshown]

-- The cell of the work RAM that its data register comes to.
def portCell (bus : Bus) (i : Nat) : RamCell :=
  .workRam ((bus.workRam.cursor.toNat + i) % WorkRam.size)

theorem portCell_ne {i j : Nat} (hij : i < j) (hclose : j < i + WorkRam.size) :
    bus.portCell i ≠ bus.portCell j := by
  intro heq
  have hindex := RamCell.workRam.inj heq
  simp only [WorkRam.size] at hclose hindex
  omega

theorem byteIn_writeB (hsize : bus.workRam.data.size = WorkRam.size) (value : UInt8)
    (cell : RamCell) :
    (bus.writeB 0x80 value).byteIn cell =
      if cell = bus.portCell 0 then value else bus.byteIn cell := by
  have hholds : bus.Holds (bus.portCell 0) := by
    rw [portCell, Holds, hsize]
    exact Nat.mod_lt _ (by decide)
  rw [← byteIn_put hholds]
  cases cell <;> rfl

end Bus

namespace DmaChannel

-- A channel that copies between the cartridge and the data register of the work RAM.
structure UsesPort (channel : DmaChannel) (cartridge : Cartridge) : Prop where
  port : channel.bAddress = 0x80
  mode : channel.OneRegister
  shown : ∀ i < channel.transferSize, cartridge.place (channel.aAddress i) ≠ .nothing

variable (channel : DmaChannel) (bus : Bus) (i : Nat)

-- The value of byte `i` and where it goes, if it goes anywhere.

def value : UInt8 :=
  if channel.towardsA then bus.byteIn (bus.portCell i) else bus.peek (channel.aAddress i)

def target : Option RamCell :=
  if channel.towardsA then
    match bus.place (channel.aAddress i) with
    | .ram cell => some cell
    | _ => none
  else some (bus.portCell i)

variable {channel bus i}

theorem target_of_towardsA (htowards : channel.towardsA = true) (cell : RamCell) :
    channel.target bus i = some cell ↔ bus.place (channel.aAddress i) = .ram cell := by
  rw [target, if_pos htowards]
  cases bus.place (channel.aAddress i) <;> simp

theorem target_of_away (haway : channel.towardsA = false) (cell : RamCell) :
    channel.target bus i = some cell ↔ cell = bus.portCell i := by
  rw [target, haway]
  simp [eq_comm]

end DmaChannel

namespace Bus

-- In the middle of a copy, after `done` bytes. What a cell holds is the last that was for it.
structure Copying (start : Bus) (channel : DmaChannel) (done : Nat) (bus : Bus) : Prop where
  arrived : ∀ i < done, ∀ cell, channel.target start i = some cell →
    (∀ j < done, i < j → channel.target start j ≠ some cell) →
      bus.byteIn cell = channel.value start i
  kept : ∀ cell, (∀ i < done, channel.target start i ≠ some cell) →
    bus.byteIn cell = start.byteIn cell
  port : bus.portCell 0 = start.portCell done
  inRange : 0 < done → bus.workRam.cursor.toNat < WorkRam.size
  sized : bus.Sized (start.cartridge.map Cartridge.hardware)
  io : bus.io = start.io
  bRegisters : bus.bRegisters = start.bRegisters
  pause : bus.pause = start.pause

namespace Copying

variable {start bus after : Bus} {channel : DmaChannel} {cartridge : Cartridge} {done : Nat}

theorem zero (hsized : start.Sized (start.cartridge.map Cartridge.hardware)) :
    Copying start channel 0 start where
  arrived _ hi := absurd hi (Nat.not_lt_zero _)
  kept _ _ := rfl
  port := rfl
  inRange hpos := absurd hpos (Nat.lt_irrefl 0)
  sized := hsized
  io := rfl
  bRegisters := rfl
  pause := rfl

-- One more byte has been put where it goes, and the cursor counted up.
theorem succ (hcopying : Copying start channel done bus) (hsteady : Steady bus after)
    (hbytes : ∀ cell, after.byteIn cell =
      if channel.target start done = some cell then channel.value start done
      else bus.byteIn cell)
    (hcursor : after.workRam.cursor = bus.workRam.advance.cursor)
    (hrest : after =
      { bus with workRam := after.workRam, cartridge := after.cartridge, latch := after.latch }) :
    Copying start channel (done + 1) after where
  arrived i hi cell htarget hlast := by
    rw [hbytes]
    by_cases hsame : channel.target start done = some cell
    · rw [if_pos hsame]
      rcases Nat.lt_succ_iff_lt_or_eq.mp hi with hlt | rfl
      · exact absurd hsame (hlast done (Nat.lt_succ_self done) hlt)
      · rfl
    · rw [if_neg hsame]
      have hne : i ≠ done := fun heq => hsame (heq ▸ htarget)
      have hlt : i < done := by omega
      exact hcopying.arrived i hlt cell htarget fun j hj => hlast j (Nat.lt_succ_of_lt hj)
  kept cell hout := by
    rw [hbytes, if_neg (hout done (Nat.lt_succ_self done))]
    exact hcopying.kept cell fun i hi => hout i (Nat.lt_succ_of_lt hi)
  port := by
    have hport := RamCell.workRam.inj hcopying.port
    simp only [portCell, hcursor, WorkRam.toNat_advance, RamCell.workRam.injEq, WorkRam.size,
      Nat.add_zero] at hport ⊢
    omega
  inRange _ := by
    rw [hcursor, WorkRam.toNat_advance]
    exact Nat.mod_lt _ (by decide)
  sized := hcopying.sized.steady hsteady
  io := by rw [hrest, hcopying.io]
  bRegisters := by rw [hrest, hcopying.bRegisters]
  pause := by rw [hrest, hcopying.pause]

variable (hport : channel.UsesPort cartridge) (hin : start.cartridge = some cartridge)
  (hdone : done < channel.transferSize)
include hport hin

theorem place_start {i : Nat} (hi : i < channel.transferSize) :
    start.place (channel.aAddress i) = .rom ∨
      ∃ index, start.place (channel.aAddress i) = .ram (.sram index) := by
  rw [place_of_cartridge hin (hport.shown i hi)]
  exact Cartridge.place_cases (hport.shown i hi)

-- No byte of the work RAM is overwritten by a copy out of it.
theorem value_of_towardsA (hcopying : Copying start channel done bus)
    (hdone : done < channel.transferSize) (htowards : channel.towardsA = true) :
    bus.byteIn (bus.portCell 0) = channel.value start done := by
  rw [DmaChannel.value, if_pos htowards, hcopying.port]
  refine hcopying.kept _ fun i hi htarget => ?_
  rw [DmaChannel.target_of_towardsA htowards] at htarget
  rcases place_start hport hin (Nat.lt_trans hi hdone) with hrom | ⟨index, hsram⟩
  · rw [hrom] at htarget
    cases htarget
  · rw [hsram] at htarget
    cases htarget

-- The cartridge in the middle of a copy shows what it has shown at first.
theorem shown (hcopying : Copying start channel done bus) {i : Nat}
    (hi : i < channel.transferSize) :
    ∃ now, bus.cartridge = some now ∧ now.hardware = cartridge.hardware ∧
      now.place (channel.aAddress i) ≠ .nothing := by
  have hsame := hcopying.sized.cartridge
  rw [hin, Option.map_some, Option.map_eq_some_iff] at hsame
  obtain ⟨now, hnow, hhardware⟩ := hsame
  refine ⟨now, hnow, hhardware, ?_⟩
  rw [Cartridge.place_congr hhardware]
  exact hport.shown i hi

-- No byte of the cartridge is overwritten by a copy out of it.
theorem value_of_away (hcopying : Copying start channel done bus)
    (hdone : done < channel.transferSize) (haway : channel.towardsA = false) :
    bus.peek (channel.aAddress done) = channel.value start done := by
  obtain ⟨now, hnow, hhardware, hshown⟩ := hcopying.shown hport hin hdone
  have hsram (index : Nat) : now.sram.get! index = cartridge.sram.get! index := by
    have hkept := hcopying.kept (.sram index) fun i _ htarget => by
      cases (DmaChannel.target_of_away haway _).mp htarget
    simpa only [byteIn, hnow, hin, Option.map_some, Option.getD_some] using hkept
  have hread : now.read (channel.aAddress done) = cartridge.read (channel.aAddress done) :=
    Cartridge.read_congr hhardware hsram
  rw [peek_of_cartridge hnow hshown, peek_of_cartridge hin (hport.shown done hdone)] at hread
  rw [DmaChannel.value, haway]
  exact Except.ok.inj hread

theorem succ_away (hcopying : Copying start channel done bus)
    (hdone : done < channel.transferSize) (haway : channel.towardsA = false) :
    ∃ after, bus.transferByte channel done (channel.offsetAt done) = (.ok (), after) ∧
      Copying start channel (done + 1) after := by
  obtain ⟨now, hnow, hhardware, hshown⟩ := hcopying.shown hport hin hdone
  have hread := readA_of_cartridge hnow hshown
  rw [value_of_away hport hin hcopying hdone haway] at hread
  have hbyte : bus.transferByte channel done (channel.offsetAt done) =
      (.ok (), (bus.hold (channel.value start done)).writeB 0x80 (channel.value start done)) := by
    simp only [DmaChannel.aAddress] at hread
    simp only [transferByte, haway, Bool.false_eq_true, if_false, hread,
      DmaChannel.bRegister_eq hport.mode, hport.port]
  refine ⟨_, hbyte, hcopying.succ ?_ (fun cell => ?_) rfl rfl⟩
  · exact (bus.steady_hold _).trans (steady_writeB ..)
  · have hsize : (bus.hold (channel.value start done)).workRam.data.size = WorkRam.size :=
      hcopying.sized.workRam
    rw [byteIn_writeB hsize]
    simp only [DmaChannel.target_of_away haway, ← hcopying.port]
    cases cell <;> rfl

theorem succ_towardsA (hcopying : Copying start channel done bus)
    (hdone : done < channel.transferSize) (htowards : channel.towardsA = true) :
    ∃ after, bus.transferByte channel done (channel.offsetAt done) = (.ok (), after) ∧
      Copying start channel (done + 1) after := by
  obtain ⟨now, hnow, hhardware, hshown⟩ := hcopying.shown hport hin hdone
  have hvalue := value_of_towardsA hport hin hcopying hdone htowards
  let advanced : Bus := { bus with workRam := bus.workRam.advance }
  have hinside : advanced.cartridge = some now := hnow
  have hread (cell : RamCell) : advanced.byteIn cell = bus.byteIn cell := by cases cell <;> rfl
  have hsteady : Steady bus advanced :=
    ⟨rfl, rfl, rfl, .inr bus.workRam.advance_cursor_lt⟩
  have hwrite : advanced.writeA (channel.aAddress done) (channel.value start done) =
      (advanced.write (channel.aAddress done) (channel.value start done)).2 :=
    writeA_of_cartridge hinside hshown _
  have hbyte : bus.transferByte channel done (channel.offsetAt done) =
      (.ok (), (advanced.write (channel.aAddress done) (channel.value start done)).2) := by
    rw [← hwrite, ← hvalue]
    simp only [transferByte, htowards, if_true, DmaChannel.bRegister_eq hport.mode, hport.port]
    rfl
  have hplace : advanced.place (channel.aAddress done) = start.place (channel.aAddress done) := by
    rw [place_of_cartridge hinside hshown, place_of_cartridge hin (hport.shown done hdone),
      Cartridge.place_congr hhardware]
  refine ⟨_, hbyte, ?_⟩
  rcases place_start hport hin hdone with hrom | ⟨index, hsram⟩
  · have htarget : channel.target start done = none := by
      rw [DmaChannel.target, if_pos htowards, hrom]
    rw [write_of_rom_or_nothing (.inl (hplace.trans hrom))]
    refine hcopying.succ hsteady (fun cell => ?_) rfl rfl
    rw [htarget, if_neg (Option.some_ne_none cell).symm, hread]
  · have htarget : channel.target start done = some (.sram index) := by
      rw [DmaChannel.target, if_pos htowards, hsram]
    have hram := hplace.trans hsram
    have hsized := hcopying.sized.steady hsteady
    rw [write_of_ram hram]
    refine hcopying.succ (hsteady.trans ?_) (fun cell => ?_) rfl rfl
    · have hstep := advanced.steady_write (channel.aAddress done) (channel.value start done)
      rw [write_of_ram hram] at hstep
      exact hstep
    · rw [byteIn_put (holds_of_ram hsized.indicesFit hram), htarget, hread]
      simp only [Option.some.injEq, eq_comm]

-- So every byte is transferred, whichever way, and the copy comes to its end.

theorem succ_of (hcopying : Copying start channel done bus) (hdone : done < channel.transferSize) :
    ∃ after, bus.transferByte channel done (channel.offsetAt done) = (.ok (), after) ∧
      Copying start channel (done + 1) after := by
  cases htowards : channel.towardsA with
  | true => exact succ_towardsA hport hin hcopying hdone htowards
  | false => exact succ_away hport hin hcopying hdone htowards

theorem run {count : Nat} (hcopying : Copying start channel done bus)
    (hcount : done + count = channel.transferSize) :
    ∃ after, bus.transferBytes channel done (channel.offsetAt done) count =
        (.ok (channel.offsetAt channel.transferSize), after) ∧
      Copying start channel channel.transferSize after := by
  induction count generalizing done bus with
  | zero =>
      obtain rfl : done = channel.transferSize := hcount
      exact ⟨bus, rfl, hcopying⟩
  | succ count ih =>
      have hdone : done < channel.transferSize := by omega
      have hrest : done + 1 + count = channel.transferSize := by omega
      obtain ⟨next, hbyte, hnext⟩ := succ_of hport hin hcopying hdone
      obtain ⟨after, hbytes, hafter⟩ := ih hnext hrest
      refine ⟨after, ?_, hafter⟩
      rw [transferBytes, hbyte]
      dsimp only
      rw [channel.nextOffset_offsetAt, hbytes]

end Copying

-- Into the work RAM, where no cell is for two bytes.
structure FillsWorkRam (bus : Bus) (channel : DmaChannel) (after : Bus) : Prop where
  arrived : ∀ i < channel.transferSize,
    after.byteIn (bus.portCell i) = bus.peek (channel.aAddress i)
  kept : ∀ cell, (∀ i < channel.transferSize, cell ≠ bus.portCell i) →
    after.byteIn cell = bus.byteIn cell

-- Out of the work RAM. A cell of SRAM keeps the last byte that is for it.
structure FillsSram (bus : Bus) (channel : DmaChannel) (after : Bus) : Prop where
  arrived : ∀ i < channel.transferSize, ∀ cell, bus.place (channel.aAddress i) = .ram cell →
    (∀ j < channel.transferSize, i < j → bus.place (channel.aAddress j) ≠ .ram cell) →
      after.byteIn cell = bus.byteIn (bus.portCell i)
  kept : ∀ cell, (∀ i < channel.transferSize, bus.place (channel.aAddress i) ≠ .ram cell) →
    after.byteIn cell = bus.byteIn cell
  workRam : ∀ index, after.byteIn (.workRam index) = bus.byteIn (.workRam index)

-- What a channel that runs leaves behind.
structure Copied (bus : Bus) (index : Fin 8) (channel : DmaChannel) (after : Bus) : Prop where
  away : channel.towardsA = false → bus.FillsWorkRam channel after
  towardsA : channel.towardsA = true → bus.FillsSram channel after
  -- memories keep their sizes, and the ROM is what it was
  steady : Steady bus after
  bRegisters : after.bRegisters = bus.bRegisters
  cursor : after.workRam.cursor.toNat =
    (bus.workRam.cursor.toNat + channel.transferSize) % WorkRam.size
  aOffset : (after.io.channels.get index).aOffset = channel.offsetAt channel.transferSize
  byteCount : (after.io.channels.get index).byteCount = 0
  -- of the registers no others change
  io : after.io =
    { bus.io with
      channels := bus.io.channels.set index
        ((channel.setAOffset (channel.offsetAt channel.transferSize)).setByteCount 0) }
  pause : after.pause = bus.pause + (channel.transferSize + 1).toUInt32

section Finish

variable {bus copied : Bus} {index : Fin 8} {channel : DmaChannel} {cartridge : Cartridge}
  (hcopying : Copying bus channel channel.transferSize copied) (offset : UInt16)
include hcopying

theorem FillsWorkRam.of_copying (haway : channel.towardsA = false) :
    bus.FillsWorkRam channel (copied.finishTransfer index channel offset) where
  arrived i hi := by
    have hlast : ∀ j < channel.transferSize, i < j →
        channel.target bus j ≠ some (bus.portCell i) := by
      intro j hj hij htarget
      have hsize := channel.transferSize_le
      have hclose : j < i + WorkRam.size := by
        simp only [WorkRam.size]
        omega
      exact portCell_ne hij hclose ((DmaChannel.target_of_away haway _).mp htarget)
    have harrived := hcopying.arrived i hi _ ((DmaChannel.target_of_away haway _).mpr rfl) hlast
    rw [DmaChannel.value, haway] at harrived
    exact harrived
  kept cell hout := by
    have hkept := hcopying.kept cell fun i hi htarget =>
      hout i hi ((DmaChannel.target_of_away haway _).mp htarget)
    rw [← hkept]
    cases cell <;> rfl

theorem FillsSram.of_copying (hport : channel.UsesPort cartridge)
    (hin : bus.cartridge = some cartridge) (htowards : channel.towardsA = true) :
    bus.FillsSram channel (copied.finishTransfer index channel offset) := by
  have htarget (i : Nat) (cell : RamCell) : channel.target bus i = some cell ↔
      bus.place (channel.aAddress i) = .ram cell :=
    DmaChannel.target_of_towardsA htowards cell
  have hread (cell : RamCell) : (copied.finishTransfer index channel offset).byteIn cell =
      copied.byteIn cell := by
    cases cell <;> rfl
  have hkept (cell : RamCell)
      (hout : ∀ i < channel.transferSize, bus.place (channel.aAddress i) ≠ .ram cell) :
      (copied.finishTransfer index channel offset).byteIn cell = bus.byteIn cell := by
    rw [hread]
    exact hcopying.kept cell fun i hi hsame => hout i hi ((htarget i cell).mp hsame)
  refine ⟨fun i hi cell hplace hlast => ?_, hkept, fun found => hkept _ fun i hi hplace => ?_⟩
  · have harrived := hcopying.arrived i hi cell ((htarget i cell).mpr hplace) fun j hj hij hsame =>
      hlast j hj hij ((htarget j cell).mp hsame)
    rw [hread, harrived, DmaChannel.value, if_pos htowards]
  · rcases Copying.place_start hport hin hi with hrom | ⟨index, hsram⟩
    · rw [hrom] at hplace
      cases hplace
    · rw [hsram] at hplace
      cases hplace

end Finish

theorem copied_of_runChannel {bus : Bus} {index : Fin 8} {channel : DmaChannel}
    {cartridge : Cartridge} (hsized : bus.Sized (bus.cartridge.map Cartridge.hardware))
    (hchannel : bus.io.channels.get index = channel) (hin : bus.cartridge = some cartridge)
    (hport : channel.UsesPort cartridge) :
    ∃ after, bus.runChannel index = (.ok (), after) ∧ Copied bus index channel after := by
  have hsteady := bus.steady_runChannel index
  obtain ⟨copied, hbytes, hcopying⟩ :=
    Copying.run hport hin (Copying.zero hsized) (Nat.zero_add _)
  rw [DmaChannel.offsetAt_zero] at hbytes
  let last := channel.offsetAt channel.transferSize
  have hrun : bus.runChannel index = (.ok (), copied.finishTransfer index channel last) := by
    have hget : bus.io.channels[index] = channel := hchannel
    simp only [runChannel, hget, hbytes, last]
  rw [hrun] at hsteady
  have hregisters : (copied.finishTransfer index channel last).io.channels.get index =
      (channel.setAOffset last).setByteCount 0 :=
    Vector.getElem_set_self index.isLt
  refine ⟨_, hrun, {
    away := FillsWorkRam.of_copying hcopying last
    towardsA := FillsSram.of_copying hcopying last hport hin
    steady := hsteady
    bRegisters := hcopying.bRegisters
    cursor := ?_
    aOffset := by rw [hregisters, DmaChannel.aOffset_finished]
    byteCount := by rw [hregisters, DmaChannel.byteCount_finished]
    io := ?_
    pause := congrArg (· + (channel.transferSize + 1).toUInt32) hcopying.pause }⟩
  · have hcursor := RamCell.workRam.inj hcopying.port
    rw [Nat.add_zero, Nat.mod_eq_of_lt (hcopying.inRange channel.transferSize_pos)] at hcursor
    exact hcursor
  · rw [finishTransfer, hcopying.io]

-- A single bit of MDMAEN starts a single channel.

theorem startedChannels_single (index : Fin 8) :
    IoRegisters.startedChannels 0x420B (1 <<< index.val).toUInt8 =
      some (1 <<< index.val).toUInt8 := by
  revert index
  decide

theorem selected_single (index : Fin 8) : selected (1 <<< index.val).toUInt8 = [index] := by
  revert index
  decide

-- What is shown at the addresses of a channel's A side comes through the port into the work RAM, or
-- the work RAM comes through it to what can be written there.
theorem copied_of_start {bus : Bus} (hbus : bus.Reachable) {cartridge : Cartridge}
    (hin : bus.cartridge = some cartridge) (index : Fin 8)
    (hport : (bus.io.channels.get index).UsesPort cartridge) {bank : UInt8}
    (hbank : Address.InSystemBank ⟨bank, 0x420B⟩) :
    ∃ after, bus.write ⟨bank, 0x420B⟩ (1 <<< index.val).toUInt8 = (.ok (), after) ∧
      Copied bus index (bus.io.channels.get index) after := by
  obtain ⟨inserted, hsized⟩ := hbus.sized
  obtain rfl := hsized.cartridge
  obtain ⟨after, hrun, hcopied⟩ := copied_of_runChannel hsized rfl hin hport
  have hio : bus.io.write 0x420B (1 <<< index.val).toUInt8 = bus.io := rfl
  refine ⟨after, ?_, hcopied⟩
  simp only [write, responder_mdmaen bus hbank, hio, startedChannels_single, selected_single,
    runChannels, hrun]

-- Six bytes out of the work RAM go around the four bytes of SRAM. The fifth is for the first cell
-- again, and stays there.
theorem copied_of_start_around :
    let cartridge := Cartridge.withMapping blankRom .loRom 4
    let bus := run powerOn [.insert cartridge, .write ⟨0, 0x4300⟩ 0x80, .write ⟨0, 0x4301⟩ 0x80,
      .write ⟨0, 0x4304⟩ 0x70, .write ⟨0, 0x4305⟩ 6]
    bus.Reachable ∧ bus.cartridge = some cartridge ∧ (bus.io.channels.get 0).UsesPort cartridge ∧
      Address.InSystemBank ⟨0, 0x420B⟩ ∧
      ∃ after, bus.write ⟨0, 0x420B⟩ 1 = (.ok (), after) ∧
        after.byteIn (.sram 0) = bus.byteIn (.workRam 4) ∧ after.workRam.cursor.toNat = 6 ∧
        (after.io.channels.get 0).aOffset = 6 ∧ after.pause = 7 := by
  intro cartridge bus
  have hbus : bus.Reachable := .run .powerOn _
  have hin : bus.cartridge = some cartridge := rfl
  have hport : (bus.io.channels.get 0).UsesPort cartridge := by
    refine ⟨?_, ?_, ?_⟩
    · decide +kernel
    · exact .inl (by decide +kernel)
    · decide +kernel
  have hbank : Address.InSystemBank ⟨0, 0x420B⟩ := by decide
  obtain ⟨after, hwrite, hcopied⟩ := copied_of_start hbus hin 0 hport hbank
  have harrived := (hcopied.towardsA (by decide +kernel)).arrived 4 (by decide +kernel) (.sram 0)
    (by decide +kernel) (by decide +kernel)
  exact ⟨hbus, hin, hport, hbank, after, hwrite, harrived,
    hcopied.cursor.trans (by decide +kernel), hcopied.aOffset.trans (by decide +kernel),
    hcopied.pause.trans (by decide +kernel)⟩

end Bus

end Console816
