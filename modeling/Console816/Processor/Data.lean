import Console816.Processor.Location

namespace Console816

namespace Registers

def dataWidth (r : Registers) : DataRegister → Width
  | .a => r.accumulatorWidth
  | .x | .y => r.indexWidth

def data (r : Registers) : DataRegister → UInt16
  | .a => r.a
  | .x => r.x
  | .y => r.y

-- A keeps the byte that the width leaves out, an index register loses it. N and Z follow.
def assign (r : Registers) (target : DataRegister) (value : UInt16) : Registers :=
  let width := r.dataWidth target
  let p := r.p.describe width value
  match target with
  | .a => { r with p, a := width.merge r.a value }
  | .x => { r with p, x := width.truncate value }
  | .y => { r with p, y := width.truncate value }

-- Counting leaves the byte that the width leaves out, in X and Y as well.
def stepData (r : Registers) (target : DataRegister) (delta : UInt16) : Registers :=
  let width := r.dataWidth target
  let value := r.data target + delta
  let p := r.p.describe width value
  match target with
  | .a => { r with p, a := width.merge r.a value }
  | .x => { r with p, x := width.merge r.x value }
  | .y => { r with p, y := width.merge r.y value }

-- BIT with a constant looks at Z alone.
def testBits (r : Registers) (width : Width) (value : UInt16) (isConstant : Bool) : Registers :=
  let p := r.p.put .zero (value &&& width.truncate r.a == 0)
  if isConstant then { r with p }
  else
    { r with
      p := (p.put .negative (value &&& width.signBit != 0)).put .overflow
        (value &&& (width.signBit >>> 1) != 0) }

end Registers

def Location.isConstant : Location → Bool
  | .constant _ => true
  | _ => false

namespace Execution

variable {μ : Type} [Memory μ]

def chargeWord (width : Width) (cycles : Nat) : Execution μ Unit :=
  charge (if width.isWord then cycles else 0)

def accumulate (f : Width → UInt16 → UInt16 → Status → UInt16 × Status)
    (instruction : Instruction) : Execution μ Unit := do
  let width := (← registers).accumulatorWidth
  let value ← read (← locate instruction) width
  modifyRegisters fun r =>
    let (sum, p) := f width r.a value r.p
    { r with p, a := width.merge r.a sum }
  chargeWord width 1

def combine (f : UInt16 → UInt16 → UInt16) (instruction : Instruction) : Execution μ Unit := do
  let width := (← registers).accumulatorWidth
  let value ← read (← locate instruction) width
  modifyRegisters fun r => r.assign .a (f r.a value)
  chargeWord width 1

def compareWith (register : DataRegister) (instruction : Instruction) : Execution μ Unit := do
  let width := (← registers).dataWidth register
  let value ← read (← locate instruction) width
  modifyRegisters fun r => { r with p := Arithmetic.compare width (r.data register) value r.p }
  chargeWord width 1

def testBits (instruction : Instruction) : Execution μ Unit := do
  let width := (← registers).accumulatorWidth
  let location ← locate instruction
  let value ← read location width
  modifyRegisters fun r => r.testBits width value location.isConstant
  chargeWord width 1

def loadData (target : DataRegister) (instruction : Instruction) : Execution μ Unit := do
  let width := (← registers).dataWidth target
  let value ← read (← locate instruction) width
  modifyRegisters fun r => r.assign target value
  chargeWord width 1

def storeValue (width : Width) (value : UInt16) (instruction : Instruction) :
    Execution μ Unit := do
  let location ← locate instruction
  write instruction.operation location width value
  chargeWord width 1

def storeData (source : DataRegister) (instruction : Instruction) : Execution μ Unit := do
  let r ← registers
  storeValue (r.dataWidth source) (r.data source) instruction

def storeZero (instruction : Instruction) : Execution μ Unit := do
  storeValue (← registers).accumulatorWidth 0 instruction

-- TSB and TRB. Z tells whether A and the old value had a bit in common.
def putBits (value : Bool) (instruction : Instruction) : Execution μ Unit := do
  let r ← registers
  let width := r.accumulatorWidth
  let location ← locate instruction
  let old ← read location width
  let bits := width.truncate r.a
  modifyRegisters fun r => { r with p := r.p.put .zero (old &&& bits == 0) }
  write instruction.operation location width (if value then old ||| bits else old &&& ~~~bits)
  chargeWord width 2

-- Reads, changes and writes one place. The flags are set before the write, which may yet fail.
-- Only memory takes longer for a word.
def change (f : Width → UInt16 → Status → UInt16 × Status) (instruction : Instruction) :
    Execution μ Unit := do
  let width := (← registers).accumulatorWidth
  let location ← locate instruction
  let old ← read location width
  let (value, p) := f width old (← registers).p
  modifyRegisters ({ · with p })
  write instruction.operation location width value
  unless location = .accumulator do chargeWord width 2

def shift (kind : Shift) : Instruction → Execution μ Unit :=
  change fun width old p =>
    let value := kind.value width (p.has .carry) old
    (value, (p.put .carry (kind.carryOut width old)).describe width value)

def step (delta : UInt16) : Instruction → Execution μ Unit :=
  change fun width old p => (old + delta, p.describe width (old + delta))

end Execution

end Console816
