namespace Console816.Frame

-- A container for bytes: frames of the Zstandard format whose blocks are stored and not compressed.

-- The mark of a frame, a descriptor without options, and a window of 128 KiB.
def mark : List UInt8 := [0x28, 0xB5, 0x2F, 0xFD]

def opening : List UInt8 := mark ++ [0x00, 0x38]

def largestBlock : Nat := 0x20000

-- How many bytes a frame with this window may hold in one block.
def blockLimit (window : UInt8) : Nat :=
  let base := 1 <<< (10 + window.toNat / 8)
  min (base + base / 8 * (window.toNat % 8)) largestBlock

-- Bit 0 marks the last block, the next two bits its kind, and the others its length.
def blockHeader (isLast : Bool) (length : Nat) : List UInt8 :=
  let word := length * 8 + isLast.toNat
  [word.toUInt8, (word / 0x100).toUInt8, (word / 0x10000).toUInt8]

-- `count` full blocks, and a last one with what remains.
def storeBlocks (data : List UInt8) : Nat → List UInt8
  | 0 => blockHeader true data.length ++ data
  | count + 1 =>
    blockHeader false largestBlock ++ data.take largestBlock ++
      storeBlocks (data.drop largestBlock) count

def store (data : List UInt8) : List UInt8 :=
  opening ++ storeBlocks data ((data.length - 1) / largestBlock)

-- Blocks are stored (kind 0), or one byte that repeats (kind 1).
def blockContents? (kind length : Nat) (input : List UInt8) :
    Option (List UInt8 × List UInt8) :=
  match kind, input with
  | 0, input => if length ≤ input.length then some (input.take length, input.drop length) else none
  | 1, byte :: rest => some (List.replicate length byte, rest)
  | _, _ => none

inductive Position where
  | betweenFrames
  | inFrame (limit : Nat)

-- Reads up to `parts` frame openings and blocks. Frames may follow one another.
def readParts (position : Position) (input : List UInt8) (read : List (List UInt8)) :
    Nat → Option (List UInt8)
  | 0 => none
  | parts + 1 =>
    match position, input with
    | .betweenFrames, [] => if read.isEmpty then none else some read.reverse.flatten
    | .betweenFrames, 0x28 :: 0xB5 :: 0x2F :: 0xFD :: 0x00 :: window :: rest =>
      readParts (.inFrame (blockLimit window)) rest read parts
    | .inFrame limit, a :: b :: c :: rest =>
      let word := a.toNat + 0x100 * b.toNat + 0x10000 * c.toNat
      let length := word / 8
      if limit < length then none
      else
        match blockContents? (word / 2 % 4) length rest with
        | none => none
        | some (contents, rest) =>
          let position := if word % 2 = 1 then .betweenFrames else .inFrame limit
          readParts position rest (contents :: read) parts
    | _, _ => none

-- Every frame opening and every block takes at least a byte of the input.
def contents? (input : List UInt8) : Option (List UInt8) :=
  readParts .betweenFrames input [] (input.length + 1)

end Console816.Frame
