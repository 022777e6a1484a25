import Console816.Cartridge.Header
import Console816.Proofs.Text.Utf8
import Mathlib.Data.List.Find

namespace Console816

-- The 64 bytes at one of the places where a header may be.
abbrev HeaderWindow := Fin 64 → UInt8

namespace HeaderWindow

variable (window : HeaderWindow)

-- Low byte first.
def word (offset : Fin 64) : UInt16 := Word.join (window offset) (window (offset + 1))

def HasChecksum : Prop := window.word 0x1C ^^^ window.word 0x1E = 0xFFFF

def mapMode? : Option MapMode := MapMode.ofByte? (window 0x15)

instance : Decidable window.HasChecksum := inferInstanceAs (Decidable (_ = _))

def title : String :=
  String.ofList (Text.trimEnd (Text.decodeUtf8
    (List.ofFn fun offset : Fin 21 => window (offset.castLE (by decide)))))

-- A title is read as it was written, and without the blanks that fill its place.
theorem title_of_padded {text : List Char} {count : Nat}
    (hwritten : List.ofFn (fun offset : Fin 21 => window (offset.castLE (by decide))) =
      (text ++ List.replicate count ' ').flatMap String.utf8EncodeChar)
    (htext : ∀ c ∈ text.getLast?, Text.isBlank c = false) :
    window.title = String.ofList text := by
  have hblanks : ∀ c ∈ List.replicate count ' ', Text.isBlank c = true := by
    intro c hc
    rw [List.eq_of_mem_replicate hc]
    rfl
  rw [title, hwritten, Text.decodeUtf8_flatMap, Text.trimEnd_append hblanks htext]

def vectors (offset : Fin 64) : VectorTable where
  cop := window.word offset
  brk := window.word (offset + 2)
  abort := window.word (offset + 4)
  nmi := window.word (offset + 6)
  reset := window.word (offset + 8)
  irq := window.word (offset + 10)

-- What the window says as a header.
def header (location : Nat) (mapMode : MapMode) : Header where
  location
  title := window.title
  mapMode
  romType := RomType.ofByte? (window 0x16)
  romSize := window 0x17
  sramSize := window 0x18
  region := Region.ofByte? (window 0x19)
  developer := window 0x1A
  version := window 0x1B
  checksum := window.word 0x1E
  native := window.vectors 0x24
  emulation := window.vectors 0x34

end HeaderWindow

namespace Image

variable (image : Image)

def window (location : HeaderLocation) : HeaderWindow :=
  fun offset => image.bytes.get! (location.offset + offset)

-- The locations whose window lies in the image.
def candidates : List HeaderLocation := HeaderLocation.all.filter (HeaderLocation.fits image)

theorem map_offset_candidates :
    image.candidates.map (·.offset) =
      [0x7FC0, 0xFFC0, 0x40FFC0].filter fun offset => offset + 64 ≤ image.size := by
  have hoffsets : [0x7FC0, 0xFFC0, 0x40FFC0] = HeaderLocation.all.map (·.offset) := rfl
  rw [hoffsets, List.filter_map]
  rfl

theorem slice_eq {first count : Nat} (hfits : first + count ≤ image.size) :
    image.slice first count =
      .ok (List.ofFn fun k : Fin count => image.bytes.get! (first + k)) := by
  have hsize : first + count ≤ image.bytes.data.size := hfits
  rw [slice, if_pos hfits, ByteArray.data_extract, Array.toList_extract]
  congr 1
  apply List.ext_getElem
  · simp only [List.extract_eq_take_drop, List.length_take, List.length_drop, Array.length_toList,
      List.length_ofFn]
    omega
  · intro k hslice hcount
    rw [List.length_ofFn] at hcount
    have hlt : first + k < image.bytes.data.size := by omega
    simp only [List.extract_eq_take_drop, List.getElem_take, List.getElem_drop,
      Array.getElem_toList, List.getElem_ofFn]
    exact (getElem!_pos image.bytes.data (first + k) hlt).symm

variable {image} {location : HeaderLocation} (hfits : location ∈ image.candidates)
include hfits

theorem fits_of_mem_candidates : location.offset + 64 ≤ image.size :=
  of_decide_eq_true (List.mem_filter.mp hfits).2

-- Whatever is read within the window is read from its bytes alone.
theorem parse_window {α : Type} (start count : Nat) (hwithin : start + count ≤ 64)
    (reader : ByteReader α) :
    image.parse (location.offset + start) count reader =
      match reader (List.ofFn fun k : Fin count =>
        image.window location ((k.natAdd start).castLE hwithin)) with
      | some (value, _) => .ok value
      | none => .error (.parse (location.offset + start)) := by
  have hlast := fits_of_mem_candidates hfits
  have hslice : image.slice (location.offset + start) count =
      .ok (List.ofFn fun k : Fin count =>
        image.window location ((k.natAdd start).castLE hwithin)) := by
    rw [image.slice_eq (by omega)]
    simp only [window, Nat.add_assoc, Fin.val_castLE, Fin.val_natAdd]
  simp only [parse, hslice]
  rfl

end Image

namespace HeaderLocation

variable {image : Image} {location : HeaderLocation} (hfits : location ∈ image.candidates)
include hfits

theorem hasChecksum_eq :
    location.hasChecksum image = .ok (decide (image.window location).HasChecksum) := by
  simp only [hasChecksum, Image.parse_window hfits 0x1C 4 (by decide)]
  rfl

theorem hasMapMode_eq : location.hasMapMode image = (image.window location).mapMode?.isSome := by
  simp only [hasMapMode, Image.parse_window hfits 0x15 1 (by decide)]
  rfl

end HeaderLocation

namespace Image

variable (image : Image)

-- Where the header of an image is taken to be: at the first candidate with a checksum, and only
-- where there is none at the first with a map mode.
inductive Elects : HeaderLocation → Evidence → Prop where
  | checksum {location : HeaderLocation}
      (hfirst : image.candidates.find? (fun candidate => (image.window candidate).HasChecksum) =
        some location) : Elects location .checksum
  | mapMode {location : HeaderLocation}
      (hnone : ∀ candidate ∈ image.candidates, ¬(image.window candidate).HasChecksum)
      (hfirst : image.candidates.find? (fun candidate => (image.window candidate).mapMode?.isSome) =
        some location) : Elects location .mapMode

def IsBlank : Prop :=
  ∀ candidate ∈ image.candidates,
    ¬(image.window candidate).HasChecksum ∧ (image.window candidate).mapMode? = none

theorem elects_or_isBlank :
    (∃ location evidence, image.Elects location evidence) ∨ image.IsBlank := by
  cases hchecksum : image.candidates.find? fun candidate =>
      (image.window candidate).HasChecksum with
  | some location => exact .inl ⟨location, .checksum, .checksum hchecksum⟩
  | none =>
      have hnone : ∀ candidate ∈ image.candidates, ¬(image.window candidate).HasChecksum := by
        simpa using hchecksum
      cases hmode : image.candidates.find? fun candidate =>
          (image.window candidate).mapMode?.isSome with
      | some location => exact .inl ⟨location, .mapMode, .mapMode hnone hmode⟩
      | none => exact .inr fun candidate hmem => ⟨hnone candidate hmem, by simp_all⟩

variable {image} {location : HeaderLocation} {evidence : Evidence}

theorem Elects.mem_candidates (helects : image.Elects location evidence) :
    location ∈ image.candidates := by
  cases helects with
  | checksum hfirst => exact List.mem_of_find?_eq_some hfirst
  | mapMode hnone hfirst => exact List.mem_of_find?_eq_some hfirst

-- What is elected by its map mode has one.
theorem Elects.checksum_of_mapMode?_eq_none (helects : image.Elects location evidence)
    (hunknown : (image.window location).mapMode? = none) : image.Elects location .checksum := by
  cases helects with
  | checksum hfirst => exact .checksum hfirst
  | mapMode hnone hfirst =>
      have hknown := List.find?_some hfirst
      simp [hunknown] at hknown

end Image

namespace HeaderLocation

variable {image : Image}

theorem firstWithChecksum_eq {locations : List HeaderLocation}
    (hfit : ∀ location ∈ locations, location ∈ image.candidates) :
    firstWithChecksum image locations =
      .ok (locations.find? fun location => (image.window location).HasChecksum) := by
  induction locations with
  | nil => rfl
  | cons location locations ih =>
      rw [List.forall_mem_cons] at hfit
      rw [firstWithChecksum, hasChecksum_eq hfit.1, List.find?_cons, ih hfit.2]
      by_cases hchecksum : (image.window location).HasChecksum
      · simp only [hchecksum]
        rfl
      · simp only [hchecksum]
        rfl

variable (image)

theorem search_eq :
    search image =
      match image.candidates.find? fun location => (image.window location).HasChecksum with
      | some location => .ok (location, .checksum)
      | none =>
        match image.candidates.find? fun location => (image.window location).mapMode?.isSome with
        | some location => .ok (location, .mapMode)
        | none => .error .notFound := by
  have hfirst : firstWithChecksum image image.candidates =
      .ok (image.candidates.find? fun location => (image.window location).HasChecksum) :=
    firstWithChecksum_eq fun _ => id
  have hmodes : image.candidates.find? (hasMapMode image) =
      image.candidates.find? fun location => (image.window location).mapMode?.isSome :=
    List.find?_congr fun _ => hasMapMode_eq
  change (firstWithChecksum image image.candidates >>= fun found =>
    match found with
    | some location => pure (location, Evidence.checksum)
    | none =>
      match image.candidates.find? (hasMapMode image) with
      | some location => pure (location, .mapMode)
      | none => throw .notFound) = _
  rw [hfirst, hmodes]
  rfl

variable {image}

theorem search_of_elects {location : HeaderLocation} {evidence : Evidence}
    (helects : image.Elects location evidence) : search image = .ok (location, evidence) := by
  rw [search_eq]
  cases helects with
  | checksum hfirst => rw [hfirst]
  | mapMode hnone hfirst =>
      have hnone : image.candidates.find? (fun candidate => (image.window candidate).HasChecksum) =
          none := by simpa using hnone
      rw [hnone, hfirst]

theorem search_of_isBlank (hblank : image.IsBlank) : search image = .error .notFound := by
  have hchecksums : image.candidates.find? (fun candidate => (image.window candidate).HasChecksum) =
      none := by simpa using fun candidate hmem => (hblank candidate hmem).1
  have hmodes : image.candidates.find? (fun candidate => (image.window candidate).mapMode?.isSome) =
      none := by simpa using fun candidate hmem => (hblank candidate hmem).2
  rw [search_eq, hchecksums, hmodes]

end HeaderLocation

-- No part of a header lies outside of its window.
theorem Header.parseAt_eq {image : Image} {location : HeaderLocation}
    (hfits : location ∈ image.candidates) :
    parseAt image location.offset =
      match (image.window location).mapMode? with
      | some mapMode => .ok ((image.window location).header location.offset mapMode)
      | none => .error (.unsupportedMapMode (image.window location 0x15)) := by
  have htitle := Image.parse_window hfits 0 21 (by decide) (ByteReader.take 21)
  rw [Nat.add_zero] at htitle
  simp only [parseAt, htitle, Image.parse_window hfits 0x15 7 (by decide),
    Image.parse_window hfits 0x1E 2 (by decide), Image.parse_window hfits 0x24 12 (by decide),
    Image.parse_window hfits 0x34 12 (by decide)]
  rfl

namespace Header

variable {image : Image} {location : HeaderLocation} {evidence : Evidence}

theorem parse_of_elects (helects : image.Elects location evidence) :
    parse image =
      match (image.window location).mapMode? with
      | some mapMode => .ok ((image.window location).header location.offset mapMode)
      | none => .error (.unsupportedMapMode (image.window location 0x15)) := by
  rw [parse, HeaderLocation.search_of_elects helects]
  exact parseAt_eq helects.mem_candidates

theorem parse_of_isBlank (hblank : image.IsBlank) : parse image = .error .notFound := by
  rw [parse, HeaderLocation.search_of_isBlank hblank]
  rfl

theorem parse_ok_iff {header : Header} :
    parse image = .ok header ↔
      ∃ location evidence mapMode, image.Elects location evidence ∧
        (image.window location).mapMode? = some mapMode ∧
        header = (image.window location).header location.offset mapMode := by
  constructor
  · intro hparse
    rcases image.elects_or_isBlank with ⟨location, evidence, helects⟩ | hblank
    · rw [parse_of_elects helects] at hparse
      split at hparse
      · rename_i mapMode hmode
        exact ⟨location, evidence, mapMode, helects, hmode, (Except.ok.inj hparse).symm⟩
      · cases hparse
    · rw [parse_of_isBlank hblank] at hparse
      cases hparse
  · rintro ⟨location, evidence, mapMode, helects, hmode, rfl⟩
    rw [parse_of_elects helects, hmode]

theorem parse_error_iff {error : HeaderError} :
    parse image = .error error ↔
      error = .notFound ∧ image.IsBlank ∨
        ∃ location, image.Elects location .checksum ∧ (image.window location).mapMode? = none ∧
          error = .unsupportedMapMode (image.window location 0x15) := by
  constructor
  · intro hparse
    rcases image.elects_or_isBlank with ⟨location, evidence, helects⟩ | hblank
    · rw [parse_of_elects helects] at hparse
      split at hparse
      · cases hparse
      · rename_i hunknown
        exact .inr ⟨location, helects.checksum_of_mapMode?_eq_none hunknown, hunknown,
          (Except.error.inj hparse).symm⟩
    · rw [parse_of_isBlank hblank] at hparse
      exact .inl ⟨(Except.error.inj hparse).symm, hblank⟩
  · rintro (⟨rfl, hblank⟩ | ⟨location, helects, hunknown, rfl⟩)
    · exact parse_of_isBlank hblank
    · rw [parse_of_elects helects, hunknown]

-- Images with the same windows have the same header.
theorem parse_congr {other : Image} (hcandidates : other.candidates = image.candidates)
    (hwindows : ∀ location ∈ image.candidates, other.window location = image.window location) :
    parse other = parse image := by
  rcases image.elects_or_isBlank with ⟨location, evidence, helects⟩ | hblank
  · have hwindow := hwindows location helects.mem_candidates
    have hother : other.Elects location evidence := by
      cases helects with
      | checksum hfirst =>
          refine .checksum ?_
          rw [hcandidates, ← hfirst]
          exact List.find?_congr fun candidate hmem => by rw [hwindows candidate hmem]
      | mapMode hnone hfirst =>
          refine .mapMode (fun candidate hmem => ?_) ?_
          · rw [hcandidates] at hmem
            rw [hwindows candidate hmem]
            exact hnone candidate hmem
          · rw [hcandidates, ← hfirst]
            exact List.find?_congr fun candidate hmem => by rw [hwindows candidate hmem]
    rw [parse_of_elects helects, parse_of_elects hother, hwindow]
  · have hother : other.IsBlank := fun candidate hmem => by
      rw [hcandidates] at hmem
      rw [hwindows candidate hmem]
      exact hblank candidate hmem
    rw [parse_of_isBlank hblank, parse_of_isBlank hother]

-- A header comes from the window that is elected, and nothing outside of the windows matters. There
-- is no header where no window has a checksum or a map mode, and a checksum with no known map mode
-- is refused; nothing else can fail.
theorem parse_by_windows (image : Image) :
    image.candidates.map (·.offset) =
      [0x7FC0, 0xFFC0, 0x40FFC0].filter (fun offset => offset + 64 ≤ image.size) ∧
    (∀ header, parse image = .ok header ↔
      ∃ location evidence mapMode, image.Elects location evidence ∧
        (image.window location).mapMode? = some mapMode ∧
        header = (image.window location).header location.offset mapMode) ∧
    (parse image = .error .notFound ↔ image.IsBlank) ∧
    (∀ byte, parse image = .error (.unsupportedMapMode byte) ↔
      ∃ location, image.Elects location .checksum ∧ (image.window location).mapMode? = none ∧
        byte = image.window location 0x15) ∧
    (∀ error, parse image = .error error →
      error = .notFound ∨ ∃ byte, error = .unsupportedMapMode byte) ∧
    ∀ other : Image, other.candidates = image.candidates →
      (∀ location ∈ image.candidates, other.window location = image.window location) →
        parse other = parse image := by
  refine ⟨image.map_offset_candidates, fun header => parse_ok_iff, ?_, fun byte => ?_,
    fun error hparse => ?_, fun other => parse_congr⟩
  · simp [parse_error_iff]
  · simp [parse_error_iff]
  · rcases parse_error_iff.mp hparse with ⟨rfl, -⟩ | ⟨location, -, -, rfl⟩
    · exact .inl rfl
    · exact .inr ⟨_, rfl⟩

end Header

end Console816
