import Console816.Word

namespace Console816

-- The sixteen registers of one DMA channel.
structure DmaChannel where
  registers : Vector UInt8 16
  deriving DecidableEq

namespace DmaChannel

def powerOn : DmaChannel := ⟨Vector.replicate 16 0⟩

instance : Inhabited DmaChannel := ⟨powerOn⟩

def parameters (channel : DmaChannel) : UInt8 := channel.registers[0]

-- The first register on the B side.
def bAddress (channel : DmaChannel) : UInt8 := channel.registers[1]

def aOffset (channel : DmaChannel) : UInt16 := Word.join channel.registers[2] channel.registers[3]

def aBank (channel : DmaChannel) : UInt8 := channel.registers[4]

def byteCount (channel : DmaChannel) : UInt16 :=
  Word.join channel.registers[5] channel.registers[6]

-- A count of zero stands for the largest.
def transferSize (channel : DmaChannel) : Nat :=
  if channel.byteCount = 0 then 0x10000 else channel.byteCount.toNat

def towardsA (channel : DmaChannel) : Bool := channel.parameters &&& 0x80 != 0

def isFixed (channel : DmaChannel) : Bool := channel.parameters &&& 0x08 != 0

def isDescending (channel : DmaChannel) : Bool := channel.parameters &&& 0x10 != 0

def mode (channel : DmaChannel) : UInt8 := channel.parameters &&& 0x07

-- The registers of the B side that are visited in turn, counted from the first.
def pattern (channel : DmaChannel) : List UInt8 :=
  match channel.mode with
  | 0 => [0]
  | 1 => [0, 1]
  | 2 | 6 => [0, 0]
  | 3 | 7 => [0, 0, 1, 1]
  | 4 => [0, 1, 2, 3]
  | _ => [0, 1, 0, 1]

-- The register of the B side that takes part in the transfer of byte `index`.
def bRegister (channel : DmaChannel) (index : Nat) : UInt8 :=
  channel.bAddress + channel.pattern.getD (index % channel.pattern.length) 0

-- The offset on the A side for the byte after the one at `offset`.
def nextOffset (channel : DmaChannel) (offset : UInt16) : UInt16 :=
  if channel.isFixed then offset
  else if channel.isDescending then offset - 1
  else offset + 1

def setRegister (channel : DmaChannel) (index : Fin 16) (value : UInt8) : DmaChannel :=
  ⟨channel.registers.set index value⟩

def setAOffset (channel : DmaChannel) (offset : UInt16) : DmaChannel :=
  (channel.setRegister 2 (Word.low offset)).setRegister 3 (Word.high offset)

def setByteCount (channel : DmaChannel) (count : UInt16) : DmaChannel :=
  (channel.setRegister 5 (Word.low count)).setRegister 6 (Word.high count)

end DmaChannel

end Console816
