import Console816.State.Frame

namespace Console816.Frame

theorem readParts_opening (input : List UInt8) (parts : Nat) :
    readParts .betweenFrames (opening ++ input) [] (parts + 1) =
      readParts (.inFrame largestBlock) input [] parts := rfl

-- The three bytes of a header hold its word.
theorem header_word {word : Nat} (hword : word < 0x1000000) :
    word.toUInt8.toNat + 0x100 * (word / 0x100).toUInt8.toNat +
      0x10000 * (word / 0x10000).toUInt8.toNat = word := by
  simp only [UInt8.toNat_ofNat', Nat.toUInt8_eq]
  omega

-- A stored block is read as its contents, and the frame ends with the last one.
theorem readParts_block (isLast : Bool) {contents : List UInt8}
    (hlength : contents.length ≤ largestBlock) (rest : List UInt8) (read : List (List UInt8))
    (parts : Nat) :
    readParts (.inFrame largestBlock) (blockHeader isLast contents.length ++ contents ++ rest) read
        (parts + 1) =
      readParts (if isLast then .betweenFrames else .inFrame largestBlock) rest (contents :: read)
        parts := by
  have hbit : isLast.toNat ≤ 1 := Bool.toNat_le isLast
  have hword : contents.length * 8 + isLast.toNat < 0x1000000 := by
    simp only [largestBlock] at hlength
    omega
  have hhalf : (contents.length * 8 + isLast.toNat) / 8 = contents.length := by omega
  have hkind : (contents.length * 8 + isLast.toNat) / 2 % 4 = 0 := by omega
  have hlast : (contents.length * 8 + isLast.toNat) % 2 = isLast.toNat := by omega
  simp only [blockHeader, List.cons_append, List.nil_append, readParts, header_word hword, hhalf,
    hkind, hlast, Nat.not_lt.mpr hlength, if_false]
  simp [blockContents?]

theorem readParts_storeBlocks {data : List UInt8} {count parts : Nat}
    (hfull : count * largestBlock ≤ data.length)
    (hlast : data.length ≤ (count + 1) * largestBlock) (hparts : count + 2 ≤ parts)
    (read : List (List UInt8)) :
    readParts (.inFrame largestBlock) (storeBlocks data count) read parts =
      some (read.reverse.flatten ++ data) := by
  induction count generalizing data parts read with
  | zero =>
      obtain ⟨parts, rfl⟩ : ∃ rest, parts = rest + 2 := ⟨parts - 2, by omega⟩
      have hblock := readParts_block true (by simpa using hlast) [] read (parts + 1)
      rw [List.append_nil] at hblock
      rw [storeBlocks, hblock]
      simp [readParts]
  | succ count ih =>
      obtain ⟨parts, rfl⟩ : ∃ rest, parts = rest + 1 := ⟨parts - 1, by omega⟩
      rw [Nat.succ_mul] at hfull hlast
      have htake : (data.take largestBlock).length = largestBlock := by
        rw [List.length_take]
        omega
      have hdrop : (data.drop largestBlock).length = data.length - largestBlock :=
        List.length_drop
      have hblock := readParts_block false (Nat.le_of_eq htake)
        (storeBlocks (data.drop largestBlock) count) read parts
      have hrest := ih (by rw [hdrop]; omega) (by rw [hdrop]; omega) (by omega : count + 2 ≤ parts)
        (data.take largestBlock :: read)
      rw [htake] at hblock
      rw [storeBlocks, hblock]
      simpa using hrest

theorem length_storeBlocks (data : List UInt8) (count : Nat) :
    count + 1 ≤ (storeBlocks data count).length := by
  induction count generalizing data with
  | zero => simp [storeBlocks, blockHeader]
  | succ count ih =>
      have hrest := ih (data.drop largestBlock)
      simp only [storeBlocks, List.length_append, blockHeader, List.length_cons, List.length_nil]
      omega

-- What is stored is found again.
theorem contents?_store (data : List UInt8) : contents? (store data) = some data := by
  have hfull : (data.length - 1) / largestBlock * largestBlock ≤ data.length := by
    simp only [largestBlock]
    omega
  have hlast : data.length ≤ ((data.length - 1) / largestBlock + 1) * largestBlock := by
    simp only [largestBlock]
    omega
  rw [contents?, store, readParts_opening]
  have hlength := length_storeBlocks data ((data.length - 1) / largestBlock)
  refine readParts_storeBlocks hfull hlast ?_ []
  simp only [List.length_append, opening, mark, List.length_cons, List.length_nil]
  omega

end Console816.Frame
