import Console816.Proofs.Bus.Steady
import Console816.Proofs.Cartridge.Header
import Mathlib.Algebra.Group.Nat.Defs

namespace Console816

namespace Rom

variable {data : ByteArray}

theorem size_withoutCopierHeader (data : ByteArray) :
    (withoutCopierHeader data).size =
      if data.size % 0x400 = 0x200 then data.size - 0x200 else data.size := by
  simp only [withoutCopierHeader, hasCopierHeader, copierHeaderSize, beq_iff_eq]
  split
  · rw [ByteArray.size_extract, Nat.min_self]
  · rfl

theorem ofBytes_ok_iff {rom : Rom} :
    ofBytes data = .ok rom ↔ rom.bytes = withoutCopierHeader data := by
  constructor
  · intro hmade
    simp only [ofBytes] at hmade
    split at hmade
    · split at hmade
      · rw [← Except.ok.inj hmade]
      · cases hmade
    · cases hmade
  · rintro hbytes
    obtain ⟨⟨bytes⟩, size_pos, size_mod⟩ := rom
    subst hbytes
    rw [ofBytes, dif_pos size_pos, dif_pos size_mod]

theorem ofBytes_error_iff {error : RomError} :
    ofBytes data = .error error ↔
      error = .empty ∧ (data.size = 0 ∨ data.size = 0x200) ∨
        error = .size data.size ∧ data.size % 0x400 ≠ 0 ∧ data.size % 0x400 ≠ 0x200 := by
  have hsize := size_withoutCopierHeader data
  have hempty : (withoutCopierHeader data).size = 0 ↔ data.size = 0 ∨ data.size = 0x200 := by
    rw [hsize]
    split <;> omega
  have hpart : (withoutCopierHeader data).size % 0x400 ≠ 0 ↔
      data.size % 0x400 ≠ 0 ∧ data.size % 0x400 ≠ 0x200 := by
    rw [hsize]
    split <;> omega
  simp only [ofBytes]
  split
  · split <;> grind
  · grind

-- A copier header makes no difference.
theorem ofBytes_append {copier image : ByteArray} (hcopier : copier.size = 0x200)
    (hpos : 0 < image.size) (hwhole : image.size % 0x400 = 0) :
    ofBytes (copier ++ image) = ofBytes image := by
  have hlong : withoutCopierHeader (copier ++ image) = image := by
    have hlength : (copier ++ image).size = 0x200 + image.size := by
      rw [ByteArray.size_append, hcopier]
    have hheader : hasCopierHeader (copier ++ image) = true := by
      simp only [hasCopierHeader, copierHeaderSize, hlength, beq_iff_eq]
      omega
    rw [withoutCopierHeader, if_pos hheader]
    exact ByteArray.extract_append_eq_right hcopier.symm (by rw [hlength, hcopier])
  have hshort : withoutCopierHeader image = image := by
    have hheader : ¬hasCopierHeader image = true := by
      simp [hasCopierHeader, copierHeaderSize, hwhole]
    rw [withoutCopierHeader, if_neg hheader]
  have himage : ofBytes image = .ok ⟨⟨image⟩, hpos, hwhole⟩ := ofBytes_ok_iff.mpr hshort.symm
  rw [himage]
  exact ofBytes_ok_iff.mpr hlong.symm

end Rom

-- ExLoROM is the one layout that is named and not decoded.
theorem Mapping.byte_of_ofLayout?_eq_none {mapMode : MapMode}
    (hnone : ofLayout? mapMode.layout = none) : mapMode.byte = 0x22 ∨ mapMode.byte = 0x32 := by
  obtain ⟨layout, fast⟩ := mapMode
  cases layout with
  | exLoRom => cases fast <;> decide
  | loRom | hiRom | exHiRom => cases hnone

-- From 2 KiB to 256 KiB.
theorem Header.sramBytes_cases (header : Header) :
    header.sramBytes = 0 ∨ ∃ k, 1 ≤ k ∧ k ≤ 8 ∧ header.sramBytes = 0x400 * 2 ^ k := by
  unfold sramBytes
  split
  · exact .inl rfl
  · rename_i hsize
    have hpos : header.sramSize.toNat ≠ 0 := fun hzero => hsize (UInt8.toNat_inj.mp hzero)
    exact .inr ⟨min header.sramSize.toNat 8, by omega, by omega, Nat.shiftLeft_eq ..⟩

namespace Cartridge

-- What can be wrong with an image.
inductive Refusal (data : ByteArray) : CartridgeError → Prop where
  | empty (hempty : data.size = 0 ∨ data.size = 0x200) : Refusal data (.rom .empty)
  | size (hpart : data.size % 0x400 ≠ 0 ∧ data.size % 0x400 ≠ 0x200) :
      Refusal data (.rom (.size data.size))
  | notFound : Refusal data (.header .notFound)
  | unsupportedMapMode (byte : UInt8) : Refusal data (.header (.unsupportedMapMode byte))
  | unsupportedMapping {byte : UInt8} (hbyte : byte = 0x22 ∨ byte = 0x32) :
      Refusal data (.unsupportedMapping byte)

-- A new cartridge has the image, less a copier header, and what the header in it asks for.
structure MadeOf (cartridge : Cartridge) (data : ByteArray) : Prop where
  bytes : cartridge.rom.bytes = Rom.withoutCopierHeader data
  size_pos : 0 < cartridge.rom.size
  size_mod : cartridge.rom.size % 0x400 = 0
  header : ∃ location evidence mapMode, cartridge.rom.Elects location evidence ∧
    location.offset + 64 ≤ cartridge.rom.size ∧
    (cartridge.rom.window location).mapMode? = some mapMode ∧
    Mapping.ofLayout? mapMode.layout = some cartridge.mapping ∧
    cartridge.title = (cartridge.rom.window location).title ∧
    cartridge.sram.size = ((cartridge.rom.window location).header location.offset mapMode).sramBytes
  sram : cartridge.sram = zeroBytes cartridge.sram.size
  sram_size : cartridge.sram.size = 0 ∨ ∃ k, 1 ≤ k ∧ k ≤ 8 ∧ cartridge.sram.size = 0x400 * 2 ^ k

theorem refusal_of_ofBytes {data : ByteArray} {error : CartridgeError}
    (hrefused : ofBytes data = .error error) : Refusal data error := by
  unfold ofBytes at hrefused
  split at hrefused
  · rename_i error' hrom
    obtain rfl := Except.error.inj hrefused
    rcases Rom.ofBytes_error_iff.mp hrom with ⟨rfl, hempty⟩ | ⟨rfl, hpart⟩
    · exact .empty hempty
    · exact .size hpart
  · rename_i rom hrom
    unfold ofRom at hrefused
    split at hrefused
    · rename_i error' hheader
      obtain rfl := Except.error.inj hrefused
      rcases Header.parse_error_iff.mp hheader with ⟨rfl, -⟩ | ⟨location, -, -, rfl⟩
      · exact .notFound
      · exact .unsupportedMapMode _
    · split at hrefused
      · rename_i hlayout
        obtain rfl := Except.error.inj hrefused
        exact .unsupportedMapping (Mapping.byte_of_ofLayout?_eq_none hlayout)
      · cases hrefused

theorem madeOf_of_ofBytes {data : ByteArray} {cartridge : Cartridge}
    (hmade : ofBytes data = .ok cartridge) : cartridge.MadeOf data := by
  unfold ofBytes at hmade
  split at hmade
  · cases hmade
  · rename_i rom hrom
    unfold ofRom at hmade
    split at hmade
    · cases hmade
    · rename_i header hheader
      obtain ⟨location, evidence, mapMode, helects, hmode, rfl⟩ := Header.parse_ok_iff.mp hheader
      split at hmade
      · cases hmade
      · rename_i mapping hlayout
        obtain rfl := Except.ok.inj hmade
        simp only [withMapping]
        exact {
          bytes := Rom.ofBytes_ok_iff.mp hrom
          size_pos := rom.size_pos
          size_mod := rom.size_mod
          header := ⟨location, evidence, mapMode, helects,
            Image.fits_of_mem_candidates helects.mem_candidates, hmode, hlayout, rfl,
            size_zeroBytes _⟩
          sram := by rw [size_zeroBytes]
          sram_size := by
            rw [size_zeroBytes]
            exact Header.sramBytes_cases _ }

theorem sram_of_ofBytes {data : ByteArray} {cartridge : Cartridge}
    (hmade : ofBytes data = .ok cartridge) : cartridge.sram = zeroBytes cartridge.sram.size :=
  (madeOf_of_ofBytes hmade).sram

-- The remainder of a division by zero, and the byte past the end of a memory, are nothing.

def remainder? (index size : Nat) : Option Nat := if size = 0 then none else some (index % size)

def byte? (bytes : ByteArray) (index : Nat) : Option UInt8 :=
  if index < bytes.size then some (bytes.get! index) else none

def withByte? (bytes : ByteArray) (index : Nat) (value : UInt8) : Option ByteArray :=
  if index < bytes.size then some (bytes.set! index value) else none

section Repeating

variable {bytes : ByteArray} (hpos : 0 < bytes.size) (index : Nat) (value : UInt8)
include hpos

theorem byte?_remainder? :
    (remainder? index bytes.size).bind (byte? bytes) =
      some (bytes.get! (index % bytes.size)) := by
  rw [remainder?, if_neg (Nat.ne_of_gt hpos), Option.bind_some, byte?,
    if_pos (Nat.mod_lt index hpos)]

theorem withByte?_remainder? :
    (remainder? index bytes.size).bind (withByte? bytes · value) =
      some (bytes.set! (index % bytes.size) value) := by
  rw [remainder?, if_neg (Nat.ne_of_gt hpos), Option.bind_some, withByte?,
    if_pos (Nat.mod_lt index hpos)]

end Repeating

variable (cartridge : Cartridge) (address : Address) (value : UInt8)

-- Reads and writes that give nothing where one of these is met.

def checkedRead : Option (Except BusError UInt8) :=
  match cartridge.mapping.cell? address with
  | some (.rom index) =>
    let bytes := cartridge.rom.bytes
    ((remainder? index bytes.size).bind (byte? bytes)).map .ok
  | some (.sram index) =>
    if cartridge.sram.size = 0 then some (.error (.unmappedCartridgeRead address))
    else
      let bytes := cartridge.sram
      ((remainder? index bytes.size).bind (byte? bytes)).map .ok
  | none => some (.error (.unmappedCartridgeRead address))

def checkedWrite : Option Cartridge :=
  match cartridge.mapping.cell? address with
  | some (.sram index) =>
    if cartridge.sram.size = 0 then some cartridge
    else
      let bytes := cartridge.sram
      ((remainder? index bytes.size).bind (withByte? bytes · value)).map fun sram =>
        { cartridge with sram }
  | _ => some cartridge

theorem checkedRead_eq : cartridge.checkedRead address = some (cartridge.read address) := by
  unfold checkedRead read
  cases cartridge.mapping.cell? address with
  | none => rfl
  | some cell =>
      cases cell with
      | rom index =>
          have hlt : index % cartridge.rom.bytes.size < cartridge.rom.bytes.size :=
            Nat.mod_lt index cartridge.rom.size_pos
          have hbyte : cartridge.rom.bytes.get! (index % cartridge.rom.bytes.size) =
              cartridge.rom.byteAt index := getElem!_pos cartridge.rom.bytes.data _ hlt
          simp only [byte?_remainder? cartridge.rom.size_pos, hbyte, Option.map_some]
      | sram index =>
          by_cases hsize : cartridge.sram.size = 0
          · simp only [sramIndex?, hsize, if_true]
          · simp only [sramIndex?, hsize, if_false, byte?_remainder? (Nat.pos_of_ne_zero hsize),
              Option.map_some]

theorem checkedWrite_eq :
    cartridge.checkedWrite address value = some (cartridge.write address value) := by
  unfold checkedWrite write
  cases cartridge.mapping.cell? address with
  | none => rfl
  | some cell =>
      cases cell with
      | rom index => rfl
      | sram index =>
          by_cases hsize : cartridge.sram.size = 0
          · simp only [sramIndex?, hsize, if_true]
          · simp only [sramIndex?, hsize, if_false,
              withByte?_remainder? (Nat.pos_of_ne_zero hsize), Option.map_some]

def writeAll (writes : List (Address × UInt8)) : Cartridge :=
  writes.foldl (fun cartridge write => cartridge.write write.1 write.2) cartridge

theorem hardware_writeAll (writes : List (Address × UInt8)) :
    (cartridge.writeAll writes).hardware = cartridge.hardware := by
  induction writes generalizing cartridge with
  | nil => rfl
  | cons write writes ih => exact (ih _).trans (hardware_write cartridge write.1 write.2)

-- An image makes a cartridge that can be read and written at any address from then on, or is
-- refused for one of a few reasons. A copier header in front of it changes neither.
theorem ofBytes_sound (data : ByteArray) :
    (∀ error, ofBytes data = .error error → Refusal data error) ∧
    (∀ cartridge, ofBytes data = .ok cartridge →
      cartridge.MadeOf data ∧
      ∀ writes, let later := cartridge.writeAll writes
        later.hardware = cartridge.hardware ∧
        ∀ address, later.checkedRead address = some (later.read address) ∧
          ∀ value, later.checkedWrite address value = some (later.write address value)) ∧
    ∀ copier : ByteArray, copier.size = 0x200 → 0 < data.size → data.size % 0x400 = 0 →
      ofBytes (copier ++ data) = ofBytes data := by
  refine ⟨fun error => refusal_of_ofBytes, fun cartridge hmade => ?_,
    fun copier hcopier hpos hwhole => ?_⟩
  · refine ⟨madeOf_of_ofBytes hmade, fun writes => ⟨cartridge.hardware_writeAll writes, ?_⟩⟩
    exact fun address => ⟨checkedRead_eq _ address, fun value => checkedWrite_eq _ address value⟩
  · rw [ofBytes, Rom.ofBytes_append hcopier hpos hwhole, ofBytes]

end Cartridge

end Console816
