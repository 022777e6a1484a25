import Console816.Width

namespace Console816

-- The flags of the status byte, from bit 7 down to bit 0.
inductive Flag where
  | negative
  | overflow
  | narrowAccumulator
  | narrowIndex
  | decimal
  | irqDisable
  | zero
  | carry
  deriving DecidableEq, Repr

namespace Flag

def all : List Flag :=
  [negative, overflow, narrowAccumulator, narrowIndex, decimal, irqDisable, zero, carry]

def mask : Flag → UInt8
  | negative => 0x80
  | overflow => 0x40
  | narrowAccumulator => 0x20
  | narrowIndex => 0x10
  | decimal => 0x08
  | irqDisable => 0x04
  | zero => 0x02
  | carry => 0x01

def letter : Flag → Char
  | negative => 'N'
  | overflow => 'V'
  | narrowAccumulator => 'M'
  | narrowIndex => 'X'
  | decimal => 'D'
  | irqDisable => 'I'
  | zero => 'Z'
  | carry => 'C'

end Flag

-- The processor status P.
structure Status where
  byte : UInt8
  deriving DecidableEq, Repr, Inhabited

namespace Status

-- Eight-bit registers and interrupts disabled.
def powerOn : Status := ⟨0x34⟩

-- In emulation mode a pushed status tells BRK from IRQ by this bit.
def breakMask : UInt8 := 0x10

def has (p : Status) (flag : Flag) : Bool := p.byte &&& flag.mask != 0

def putMask (p : Status) (mask : UInt8) (value : Bool) : Status :=
  if value then ⟨p.byte ||| mask⟩ else ⟨p.byte &&& ~~~mask⟩

def put (p : Status) (flag : Flag) (value : Bool) : Status := p.putMask flag.mask value

def accumulatorWidth (p : Status) : Width := .ofNarrow (p.has .narrowAccumulator)

def indexWidth (p : Status) : Width := .ofNarrow (p.has .narrowIndex)

-- N and Z describe the part of `value` that the width covers.
def describe (p : Status) (width : Width) (value : UInt16) : Status :=
  (p.put .zero (width.truncate value == 0)).put .negative (value &&& width.signBit != 0)

-- A letter for each set flag, a dash for each clear one.
def text (p : Status) : String :=
  String.ofList (Flag.all.map fun flag => if p.has flag then flag.letter else '-')

end Status

end Console816
