import Console816.Bytes

namespace Console816

-- The 128 KiB of work RAM, and the 17-bit address at which its data register reads and writes.
structure WorkRam where
  data : ByteArray
  cursor : UInt32
  deriving DecidableEq

namespace WorkRam

def size : Nat := 0x20000

def powerOn : WorkRam := ⟨zeroBytes size, 0⟩

instance : Inhabited WorkRam := ⟨powerOn⟩

def read (ram : WorkRam) (index : Nat) : UInt8 := ram.data.get! (index % size)

def write (ram : WorkRam) (index : Nat) (value : UInt8) : WorkRam :=
  { ram with data := ram.data.set! (index % size) value }

-- Byte 0 is the lowest. Of the highest, one bit is kept.
def setCursorByte (ram : WorkRam) (byte value : UInt8) : WorkRam :=
  let shift := 8 * byte.toUInt32
  let others := ram.cursor &&& ~~~(0xFF <<< shift)
  { ram with cursor := (others ||| value.toUInt32 <<< shift) &&& 0x1FFFF }

def advance (ram : WorkRam) : WorkRam := { ram with cursor := (ram.cursor + 1) &&& 0x1FFFF }

def peekNext (ram : WorkRam) : UInt8 := ram.read ram.cursor.toNat

def readNext (ram : WorkRam) : UInt8 × WorkRam := (ram.peekNext, ram.advance)

def writeNext (ram : WorkRam) (value : UInt8) : WorkRam :=
  (ram.write ram.cursor.toNat value).advance

end WorkRam

end Console816
