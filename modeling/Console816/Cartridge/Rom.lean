import Console816.Cartridge.ByteReader
import Console816.Text.Radix

namespace Console816

inductive RomError where
  | empty
  | size (bytes : Nat)
  | unreadable (reason : String)
  | slice (first last : Nat)
  | parse (first : Nat)
  deriving DecidableEq, Repr

namespace RomError

def message : RomError → String
  | empty => "Empty ROM file"
  | size bytes =>
    "Invalid ROM size (not a multiple of 1024 bytes): " ++ toString bytes ++ " (" ++
      Text.markedLower bytes ++ ")"
  | unreadable reason => "Could not read ROM file: " ++ reason
  | slice first last =>
    "Slice " ++ Text.marked first ++ ".." ++ Text.marked last ++ " is outside of the ROM"
  | parse first => "Could not parse ROM slice at " ++ Text.marked first

-- The message, and below it the messages of what caused it.
def trail : RomError → List String
  | unreadable reason => [message (unreadable reason), reason]
  | error => [error.message]

end RomError

-- What a file holds, be it a cartridge or not.
structure Image where
  bytes : ByteArray

namespace Image

def size (image : Image) : Nat := image.bytes.size

def slice (image : Image) (first count : Nat) : Except RomError (List UInt8) :=
  if first + count ≤ image.size then .ok (image.bytes.extract first (first + count)).data.toList
  else .error (.slice first (first + count))

-- Bytes that the reader leaves over are dropped.
def parse {α : Type} (image : Image) (first count : Nat) (reader : ByteReader α) :
    Except RomError α := do
  match reader (← image.slice first count) with
  | some (value, _) => .ok value
  | none => .error (.parse first)

end Image

-- The image of a cartridge. There is always something to read, and it comes in whole kibibytes.
structure Rom extends Image where
  size_pos : 0 < bytes.size
  size_mod : bytes.size % 0x400 = 0

namespace Rom

-- Some copiers put this many bytes in front of the image.
def copierHeaderSize : Nat := 0x200

def hasCopierHeader (data : ByteArray) : Bool := data.size % 0x400 == copierHeaderSize

def withoutCopierHeader (data : ByteArray) : ByteArray :=
  if hasCopierHeader data then data.extract copierHeaderSize data.size else data

def ofBytes (data : ByteArray) : Except RomError Rom :=
  let image := withoutCopierHeader data
  if size_pos : 0 < image.size then
    if size_mod : image.size % 0x400 = 0 then .ok ⟨⟨image⟩, size_pos, size_mod⟩
    else .error (.size data.size)
  else .error .empty

-- The image repeats over the whole of the address range it is mapped to.
def byteAt (rom : Rom) (index : Nat) : UInt8 :=
  rom.bytes.get (index % rom.bytes.size) (Nat.mod_lt _ rom.size_pos)

end Rom

end Console816
