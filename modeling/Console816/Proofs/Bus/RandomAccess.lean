import Console816.Proofs.Bus.Routing
import Console816.Proofs.Console.Commands

namespace Console816

theorem get!_set! (bytes : ByteArray) {index : Nat} (hlt : index < bytes.size) (value : UInt8)
    (other : Nat) :
    (bytes.set! index value).get! other = if other = index then value else bytes.get! other := by
  change (bytes.data.setIfInBounds index value)[other]! = _
  have hdata : index < bytes.data.size := hlt
  by_cases hsame : other = index
  · subst hsame
    rw [getElem!_def, Array.getElem?_setIfInBounds_self_of_lt hdata, if_pos rfl]
  · rw [getElem!_def, Array.getElem?_setIfInBounds_ne (Ne.symm hsame), ← getElem!_def, if_neg hsame]
    rfl

-- A byte of memory that can be written.
inductive RamCell where
  | workRam (index : Nat)
  | sram (index : Nat)
  deriving DecidableEq, Repr

-- What an address stands for. SRAM that is not there is nothing.
inductive Place where
  | ram (cell : RamCell)
  | rom
  | register
  | nothing
  deriving DecidableEq, Repr

namespace Cartridge

def place (cartridge : Cartridge) (address : Address) : Place :=
  if cartridge.mapping.Answers address then
    match cartridge.mapping.sramIndex? address with
    | none => .rom
    | some index =>
      if cartridge.sram.size = 0 then .nothing else .ram (.sram (index % cartridge.sram.size))
  else .nothing

-- The same by the cells of the mapping.
theorem place_eq (cartridge : Cartridge) (address : Address) :
    cartridge.place address =
      match cartridge.mapping.cell? address with
      | some (.sram index) =>
        match cartridge.sramIndex? index with
        | some found => .ram (.sram found)
        | none => .nothing
      | some (.rom _) => .rom
      | none => .nothing := by
  rw [place, Mapping.cell?_eq]
  by_cases hanswers : cartridge.mapping.Answers address
  · rw [if_pos hanswers, if_pos hanswers, Mapping.cellAt]
    cases cartridge.mapping.sramIndex? address with
    | none => rfl
    | some index =>
        simp only [sramIndex?]
        by_cases hsize : cartridge.sram.size = 0
        · simp only [hsize, if_true]
        · simp only [hsize, if_false]
  · rw [if_neg hanswers, if_neg hanswers]

theorem sram_of_place {cartridge : Cartridge} {address : Address} {cell : RamCell}
    (hplace : cartridge.place address = .ram cell) :
    ∃ index found, cartridge.mapping.cell? address = some (.sram index) ∧
      cartridge.sramIndex? index = some found ∧ cell = .sram found := by
  rw [place_eq] at hplace
  split at hplace
  · rename_i index hcell
    split at hplace
    · rename_i found hfound
      exact ⟨index, found, hcell, hfound, (Place.ram.inj hplace).symm⟩
    · cases hplace
  · cases hplace
  · cases hplace

theorem write_of_place {cartridge : Cartridge} {address : Address}
    (hplace : cartridge.place address = .rom ∨ cartridge.place address = .nothing)
    (value : UInt8) : cartridge.write address value = cartridge := by
  rw [place_eq] at hplace
  unfold write
  split
  · rename_i index hcell
    split
    · rename_i found hfound
      simp [hcell, hfound] at hplace
    · rfl
  · rfl

end Cartridge

namespace Bus

-- The first 8 KiB of the work RAM show in every system bank.
def place (bus : Bus) (address : Address) : Place :=
  if address.InWorkRamBank then
    .ram (.workRam (address.bank.toNat % 2 * 0x10000 + address.offset.toNat))
  else if address.InSystemBank ∧ address.offset.toNat < 0x2000 then
    .ram (.workRam address.offset.toNat)
  else if address.InBRegisters ∨ address.InIoRegisters then .register
  else
    match bus.cartridge with
    | some cartridge => cartridge.place address
    | none => .nothing

-- The byte at a cell, and the bus with another one there.

def byteIn (bus : Bus) : RamCell → UInt8
  | .workRam index => bus.workRam.data.get! index
  | .sram index => (bus.cartridge.map (·.sram.get! index)).getD 0

def put (bus : Bus) (value : UInt8) : RamCell → Bus
  | .workRam index =>
    { bus with workRam := { bus.workRam with data := bus.workRam.data.set! index value } }
  | .sram index =>
    { bus with
      cartridge := bus.cartridge.map fun cartridge =>
        { cartridge with sram := cartridge.sram.set! index value } }

def Holds (bus : Bus) : RamCell → Prop
  | .workRam index => index < bus.workRam.data.size
  | .sram index => ∃ cartridge, bus.cartridge = some cartridge ∧ index < cartridge.sram.size

theorem byteIn_put {bus : Bus} {cell : RamCell} (hholds : bus.Holds cell) (value : UInt8)
    (other : RamCell) :
    (bus.put value cell).byteIn other = if other = cell then value else bus.byteIn other := by
  cases cell with
  | workRam index =>
      cases other with
      | workRam found => simpa [byteIn, put] using get!_set! _ hholds value found
      | sram found => simp [byteIn, put]
  | sram index =>
      obtain ⟨cartridge, hin, hlt⟩ := hholds
      cases other with
      | workRam found => simp [byteIn, put]
      | sram found => simpa [byteIn, put, hin] using get!_set! _ hlt value found

-- Nothing moves when a byte is put.
theorem place_put (bus : Bus) (value : UInt8) (cell : RamCell) (address : Address) :
    (bus.put value cell).place address = bus.place address := by
  cases cell with
  | workRam index => rfl
  | sram index =>
      unfold place put
      cases bus.cartridge with
      | none => rfl
      | some cartridge => simp only [Option.map_some, Cartridge.place, ByteArray.size_set!]

-- The same by who answers.
theorem place_eq (bus : Bus) (address : Address) :
    bus.place address =
      match bus.responder address with
      | .workRam index => .ram (.workRam index)
      | .bRegister _ | .ioRegister _ => .register
      | .cartridge =>
        match bus.cartridge with
        | some cartridge => cartridge.place address
        | none => .nothing
      | .nobody => .nothing := by
  rw [place]
  cases hresponder : bus.responder address with
  | workRam | bRegister | ioRegister | cartridge =>
      rw [responder_eq] at hresponder
      grind
  | nobody =>
      rw [responder_eq] at hresponder
      cases hin : bus.cartridge with
      | none => grind
      | some cartridge => grind [Cartridge.place, Mapping.Answers]

theorem lt_of_responder {bus : Bus} {address : Address} {index : Nat}
    (hresponder : bus.responder address = .workRam index) : index < WorkRam.size := by
  have hlt := address.offset.toNat_lt
  rw [responder_eq] at hresponder
  simp only [WorkRam.size]
  grind

-- Who has the byte of memory at an address.
theorem responder_of_ram {bus : Bus} {address : Address} {cell : RamCell}
    (hplace : bus.place address = .ram cell) :
    (∃ index < WorkRam.size, bus.responder address = .workRam index ∧ cell = .workRam index) ∨
      ∃ cartridge index found, bus.responder address = .cartridge ∧
        bus.cartridge = some cartridge ∧ cartridge.mapping.cell? address = some (.sram index) ∧
        cartridge.sramIndex? index = some found ∧ cell = .sram found := by
  rw [place_eq] at hplace
  split at hplace
  · rename_i index hresponder
    exact .inl ⟨index, lt_of_responder hresponder, hresponder, (Place.ram.inj hplace).symm⟩
  · cases hplace
  · cases hplace
  · rename_i hresponder
    split at hplace
    · rename_i cartridge hin
      obtain ⟨index, found, hcell, hfound, hsram⟩ := Cartridge.sram_of_place hplace
      exact .inr ⟨cartridge, index, found, hresponder, hin, hcell, hfound, hsram⟩
    · cases hplace
  · cases hplace

theorem holds_of_ram {bus : Bus} (hfit : bus.IndicesFit) {address : Address} {cell : RamCell}
    (hplace : bus.place address = .ram cell) : bus.Holds cell := by
  rcases responder_of_ram hplace with
    ⟨index, hlt, -, rfl⟩ | ⟨cartridge, index, found, -, hin, -, hfound, rfl⟩
  · have hindex := hfit.workRam index
    rw [Nat.mod_eq_of_lt hlt] at hindex
    exact hindex
  · exact ⟨cartridge, hin, hfit.sram cartridge hin index found hfound⟩

theorem peek_of_ram {bus : Bus} {address : Address} {cell : RamCell}
    (hplace : bus.place address = .ram cell) : bus.peek address = bus.byteIn cell := by
  rcases responder_of_ram hplace with
    ⟨index, hlt, hresponder, rfl⟩ | ⟨cartridge, index, found, hresponder, hin, hcell, hfound, rfl⟩
  · simp only [peek, hresponder, WorkRam.read, Nat.mod_eq_of_lt hlt, byteIn, Option.getD_some]
  · simp only [peek, hresponder, hin, Option.bind_some, Cartridge.read, hcell, hfound, byteIn,
      Option.map_some, Except.toOption, Option.getD_some]

theorem write_of_ram {bus : Bus} {address : Address} {cell : RamCell}
    (hplace : bus.place address = .ram cell) (value : UInt8) :
    bus.write address value = (.ok (), bus.put value cell) := by
  rcases responder_of_ram hplace with
    ⟨index, hlt, hresponder, rfl⟩ | ⟨cartridge, index, found, hresponder, hin, hcell, hfound, rfl⟩
  · simp only [write, hresponder, WorkRam.write, Nat.mod_eq_of_lt hlt, put]
  · obtain ⟨workRam, io, bRegisters, inserted, latch, pause⟩ := bus
    obtain rfl : inserted = some cartridge := hin
    simp only [write, hresponder, writeCartridge, Cartridge.write, hcell, hfound, put,
      Option.map_some]

theorem write_of_rom_or_nothing {bus : Bus} {address : Address}
    (hplace : bus.place address = .rom ∨ bus.place address = .nothing) (value : UInt8) :
    bus.write address value = (.ok (), bus) := by
  rw [place_eq] at hplace
  unfold write
  cases hresponder : bus.responder address with
  | workRam | bRegister | ioRegister => simp [hresponder] at hplace
  | nobody => rfl
  | cartridge =>
      obtain ⟨workRam, io, bRegisters, inserted, latch, pause⟩ := bus
      cases inserted with
      | none => rfl
      | some cartridge =>
          simp only [hresponder] at hplace
          simp only [writeCartridge, Cartridge.write_of_place hplace value]

-- A write to memory changes one byte, which is then seen at every address that stands for it and at
-- no other. A write to ROM or to nothing changes nothing.
theorem peek_after_write {bus : Bus} (hbus : bus.Reachable) (address : Address) (value : UInt8) :
    (∀ cell, bus.place address = .ram cell →
      bus.write address value = (.ok (), bus.put value cell) ∧
        ∀ other found, bus.place other = .ram found →
          (bus.put value cell).peek other = if found = cell then value else bus.peek other) ∧
      (bus.place address = .rom ∨ bus.place address = .nothing →
        bus.write address value = (.ok (), bus)) := by
  obtain ⟨inserted, hsized⟩ := hbus.sized
  refine ⟨fun cell hplace => ⟨write_of_ram hplace value, fun other found hfound => ?_⟩,
    fun hplace => write_of_rom_or_nothing hplace value⟩
  have hholds := holds_of_ram hsized.indicesFit hplace
  have hafter : (bus.put value cell).place other = .ram found := by rw [place_put, hfound]
  rw [peek_of_ram hafter, peek_of_ram hfound, byteIn_put hholds]

-- In a console, work RAM shows in a system bank, and four bytes of SRAM in all their copies.
theorem peek_after_write_mirrors :
    let cartridge := Cartridge.withMapping blankRom .loRom 4
    let bus := (Console.run .powerOn [.insert cartridge, .verticalBlank]).bus
    bus.Reachable ∧
      (bus.write ⟨0x7E, 0x0123⟩ 0x42).2.peek ⟨0x80, 0x0123⟩ = 0x42 ∧
      (bus.write ⟨0x70, 0x0001⟩ 0x42).2.peek ⟨0xFD, 0x7805⟩ = 0x42 := by
  intro cartridge bus
  have hbus : bus.Reachable := Console.reachable_run _ .powerOn
  have hram : bus.place ⟨0x7E, 0x0123⟩ = .ram (.workRam 0x0123) := by decide +kernel
  have hmirror : bus.place ⟨0x80, 0x0123⟩ = .ram (.workRam 0x0123) := by decide +kernel
  have hsram : bus.place ⟨0x70, 0x0001⟩ = .ram (.sram 1) := by decide +kernel
  have hcopy : bus.place ⟨0xFD, 0x7805⟩ = .ram (.sram 1) := by decide +kernel
  obtain ⟨hwrite, hpeek⟩ := (peek_after_write hbus ⟨0x7E, 0x0123⟩ 0x42).1 _ hram
  obtain ⟨hwrite', hpeek'⟩ := (peek_after_write hbus ⟨0x70, 0x0001⟩ 0x42).1 _ hsram
  rw [hwrite, hwrite']
  exact ⟨hbus, hpeek _ _ hmirror, hpeek' _ _ hcopy⟩

end Bus

end Console816
