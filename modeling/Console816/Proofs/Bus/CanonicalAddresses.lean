import Mathlib.Tactic.SplitIfs
import Console816.Proofs.Bus.Routing

namespace Console816

namespace Address

theorem toNat_bank_wrap (n : Nat) : (wrap n).bank.toNat = n / 0x10000 % 0x100 :=
  UInt8.toNat_ofNat'

theorem toNat_offset_wrap (n : Nat) : (wrap n).offset.toNat = n % 0x10000 :=
  UInt16.toNat_ofNat'

theorem eq_wrap_iff (address : Address) (n : Nat) :
    address = wrap n ↔
      address.bank.toNat = n / 0x10000 % 0x100 ∧ address.offset.toNat = n % 0x10000 := by
  rw [← toNat_bank_wrap, ← toNat_offset_wrap, UInt8.toNat_inj, UInt16.toNat_inj]
  rcases address with ⟨bank, offset⟩
  exact mk.injEq _ _ _ _ ▸ Iff.rfl

end Address

namespace Mapping

variable (mapping : Mapping)

-- The bytes of ROM that are seen anywhere.
def Shows (index : Nat) : Prop := ∃ address, mapping.cell? address = some (.rom index)

-- The end of ExHiROM's second half. Banks 7E and 7F, where it would come, are the work RAM's.
def IsDisplaced (index : Nat) : Prop := mapping = exHiRom ∧ 0x7E0000 ≤ index

instance (index : Nat) : Decidable (mapping.IsDisplaced index) :=
  inferInstanceAs (Decidable (_ ∧ _))

theorem sramIndex?_eq_none_iff (address : Address) :
    mapping.sramIndex? address = none ↔
      if mapping = loRom then ¬(0x70 ≤ address.bank.toNat % 0x80 ∧ address.offset.toNat < 0x8000)
      else ¬mapping.InExpansion address := by
  unfold sramIndex?
  split_ifs <;> simp [*]

theorem cell?_eq_rom_iff (address : Address) (index : Nat) :
    mapping.cell? address = some (.rom index) ↔
      mapping.Answers address ∧ mapping.sramIndex? address = none ∧
        mapping.romIndex address = index := by
  rw [cell?_eq, cellAt]
  split
  · cases mapping.sramIndex? address <;> simp [*]
  · simp [*]

variable {index : Nat}

-- LoROM and HiROM show 4 MiB, ExHiROM shows 8 MiB.
theorem romIndex_lt (address : Address) :
    mapping.romIndex address < if mapping = exHiRom then 0x800000 else 0x400000 := by
  have hbank := address.bank.toNat_lt
  have hoffset := address.offset.toNat_lt
  cases mapping <;> simp only [romIndex, reduceCtorEq, if_false, if_true]
  case exHiRom => split <;> omega
  all_goals omega

-- Where the displaced bytes are seen: in the upper halves of banks 3E and 3F.
theorem cell?_eq_iff_of_isDisplaced {mapping : Mapping} (hdisplaced : mapping.IsDisplaced index)
    (address : Address) :
    mapping.cell? address = some (.rom index) ↔
      index < 0x800000 ∧ 0x8000 ≤ index % 0x10000 ∧ address = Address.wrap (index - 0x400000) := by
  obtain ⟨rfl, hindex⟩ := hdisplaced
  have hbank := address.bank.toNat_lt
  have hoffset := address.offset.toNat_lt
  rw [cell?_eq_rom_iff, sramIndex?_eq_none_iff, Address.eq_wrap_iff]
  simp only [Answers, InExpansion, Address.InWorkRamBank, Address.InSystemBank, romIndex, ne_eq,
    reduceCtorEq, not_false_eq_true, true_and, if_false]
  split_ifs <;> omega

-- Each layout turned around, as far as it is not displaced.

private theorem cell?_canonicalAddress_loRom (hlt : index < 0x400000) :
    loRom.cell? (loRom.canonicalAddress index) = some (.rom index) := by
  rw [cell?_eq_rom_iff, sramIndex?_eq_none_iff]
  simp only [canonicalAddress, Answers, InExpansion, Address.InWorkRamBank, Address.InSystemBank,
    romIndex, Address.toNat_bank_wrap, Address.toNat_offset_wrap]
  split_ifs <;> omega

private theorem cell?_canonicalAddress_hiRom (hlt : index < 0x400000) :
    hiRom.cell? (hiRom.canonicalAddress index) = some (.rom index) := by
  rw [cell?_eq_rom_iff, sramIndex?_eq_none_iff]
  simp only [canonicalAddress, Answers, InExpansion, Address.InWorkRamBank, Address.InSystemBank,
    romIndex, Address.toNat_bank_wrap, Address.toNat_offset_wrap, reduceCtorEq, if_false]
  omega

private theorem cell?_canonicalAddress_exHiRom (hlt : index < 0x7E0000) :
    exHiRom.cell? (exHiRom.canonicalAddress index) = some (.rom index) := by
  rw [cell?_eq_rom_iff, sramIndex?_eq_none_iff]
  rcases Nat.lt_or_ge index 0x400000 with hfirst | hsecond
  · simp only [canonicalAddress, hfirst, if_true, Answers, InExpansion, Address.InWorkRamBank,
      Address.InSystemBank, romIndex, Address.toNat_bank_wrap, Address.toNat_offset_wrap,
      reduceCtorEq, if_false]
    split_ifs <;> omega
  · simp only [canonicalAddress, Nat.not_lt.mpr hsecond, Answers, InExpansion,
      Address.InWorkRamBank, Address.InSystemBank, romIndex, Address.toNat_bank_wrap,
      Address.toNat_offset_wrap, reduceCtorEq, if_false]
    split_ifs <;> omega

variable {mapping}

theorem cell?_canonicalAddress (hlt : index < if mapping = exHiRom then 0x800000 else 0x400000)
    (hnot : ¬mapping.IsDisplaced index) :
    mapping.cell? (mapping.canonicalAddress index) = some (.rom index) := by
  cases mapping with
  | loRom => exact cell?_canonicalAddress_loRom hlt
  | hiRom => exact cell?_canonicalAddress_hiRom hlt
  | exHiRom => exact cell?_canonicalAddress_exHiRom (Nat.lt_of_not_le fun hge => hnot ⟨rfl, hge⟩)

theorem shows_iff :
    mapping.Shows index ↔
      (index < if mapping = exHiRom then 0x800000 else 0x400000) ∧
        (mapping.IsDisplaced index → 0x8000 ≤ index % 0x10000) := by
  constructor
  · rintro ⟨address, hcell⟩
    obtain ⟨-, -, hrom⟩ := (mapping.cell?_eq_rom_iff address index).mp hcell
    refine ⟨hrom ▸ mapping.romIndex_lt address, fun hdisplaced => ?_⟩
    exact ((cell?_eq_iff_of_isDisplaced hdisplaced address).mp hcell).2.1
  · rintro ⟨hlt, hhalf⟩
    by_cases hdisplaced : mapping.IsDisplaced index
    · rw [if_pos hdisplaced.1] at hlt
      exact ⟨_, (cell?_eq_iff_of_isDisplaced hdisplaced _).mpr ⟨hlt, hhalf hdisplaced, rfl⟩⟩
    · exact ⟨_, cell?_canonicalAddress hlt hdisplaced⟩

-- The canonical address of a displaced byte is where it would come.
theorem canonicalAddress_of_isDisplaced (hdisplaced : mapping.IsDisplaced index)
    (hlt : index < 0x800000) :
    (mapping.canonicalAddress index).InWorkRamBank ∧
      (mapping.canonicalAddress index).raw = index := by
  obtain ⟨rfl, hindex⟩ := hdisplaced
  have hsecond : ¬index < 0x400000 := by omega
  simp only [canonicalAddress, hsecond, if_false, Address.InWorkRamBank, Address.raw,
    Address.toNat_bank_wrap, Address.toNat_offset_wrap]
  omega

end Mapping

namespace Bus

open Mapping

theorem responder_of_inWorkRamBank (bus : Bus) {address : Address}
    (hbank : address.InWorkRamBank) :
    bus.responder address = .workRam (address.raw % 0x20000) := by
  have hoffset := address.offset.toNat_lt
  rw [responder_eq, if_pos hbank, Address.raw]
  congr 1
  omega

-- A byte of ROM that is seen anywhere is read at its canonical address, if it is not displaced.
-- Those that are displaced are read at one address each, and their canonical address reads the work
-- RAM.
theorem read_canonicalAddress {mapping : Mapping} {index : Nat} (hshown : mapping.Shows index) :
    (mapping.cell? (mapping.canonicalAddress index) = some (.rom index) ↔
        ¬mapping.IsDisplaced index) ∧
      (mapping.IsDisplaced index → ∀ address, mapping.cell? address = some (.rom index) ↔
        address = Address.wrap (index - 0x400000)) ∧
      ∀ (bus : Bus) (cartridge : Cartridge), bus.cartridge = some cartridge →
        cartridge.mapping = mapping →
        let value :=
          if mapping.IsDisplaced index then bus.workRam.read (index % 0x20000)
          else cartridge.rom.byteAt index
        bus.read (mapping.canonicalAddress index) = (.ok value, bus.hold value) := by
  obtain ⟨hlt, hhalf⟩ := shows_iff.mp hshown
  by_cases hdisplaced : mapping.IsDisplaced index
  · rw [if_pos hdisplaced.1] at hlt
    obtain ⟨hbank, hraw⟩ := canonicalAddress_of_isDisplaced hdisplaced hlt
    refine ⟨?_, fun _ address => ?_, fun bus cartridge hin hmapping => ?_⟩
    · simp [cell?_eq, Answers, hbank, hdisplaced]
    · rw [cell?_eq_iff_of_isDisplaced hdisplaced]
      simp [hlt, hhalf hdisplaced]
    · simp only [if_pos hdisplaced, read, bus.responder_of_inWorkRamBank hbank, hraw]
  · have hcell := cell?_canonicalAddress hlt hdisplaced
    refine ⟨by simp [hcell, hdisplaced], fun hother => absurd hother hdisplaced, ?_⟩
    intro bus cartridge hin hmapping
    subst hmapping
    have hresponder :=
      (responder_eq_cartridge_iff_isSome hin _).mpr (Option.isSome_of_eq_some hcell)
    rw [read_of_responder hin hresponder, hcell]
    simp only [if_neg hdisplaced, Option.bind_some, Cartridge.contents?]

-- The first displaced byte. Its canonical address is in bank 7E, and the console's RAM answers.
theorem read_canonicalAddress_displaced :
    let bus := powerOn.insert (Cartridge.withMapping blankRom .exHiRom 0)
    exHiRom.cell? ⟨0x3E, 0x8000⟩ = some (.rom 0x7E8000) ∧
      exHiRom.canonicalAddress 0x7E8000 = ⟨0x7E, 0x8000⟩ ∧
      exHiRom.cell? (exHiRom.canonicalAddress 0x7E8000) ≠ some (.rom 0x7E8000) ∧
      bus.read (exHiRom.canonicalAddress 0x7E8000) =
        (.ok (bus.workRam.read 0x8000), bus.hold (bus.workRam.read 0x8000)) := by
  have hcell : exHiRom.cell? ⟨0x3E, 0x8000⟩ = some (.rom 0x7E8000) := by decide
  have hdisplaced : exHiRom.IsDisplaced 0x7E8000 := by decide
  obtain ⟨hinverse, -, hread⟩ := read_canonicalAddress ⟨_, hcell⟩
  refine ⟨hcell, by decide, fun hcanonical => hinverse.mp hcanonical hdisplaced, ?_⟩
  have hvalue := hread (powerOn.insert (Cartridge.withMapping blankRom .exHiRom 0)) _ rfl rfl
  simpa only [if_pos hdisplaced] using hvalue

end Bus

end Console816
