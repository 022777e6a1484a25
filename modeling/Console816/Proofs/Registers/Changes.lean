import Console816.Processor.Step

namespace Console816.Registers

-- Everything that the processor does to its registers in one go. What is read or worked out
-- beforehand, such as a byte from memory, may be anything.
inductive Change : (Registers → Registers) → Prop
  | counter (pc : UInt16) : Change fun r => { r with pc }
  | bank (k : UInt8) : Change fun r => { r with k }
  | longCounter (k : UInt8) (pc : UInt16) : Change fun r => { r with k, pc }
  | dataBank (dbr : UInt8) : Change fun r => { r with dbr }
  | stackDown : Change stackDown
  | stackUp : Change stackUp
  | reset : Change reset
  | handler : Change fun r =>
      { r with p := (r.p.put .irqDisable true).put .decimal false, k := 0 }
  | accumulator (width : Width) (value : UInt16) :
      Change fun r => { r with a := width.merge r.a value }
  | addition (width : Width) (value : UInt16) : Change fun r =>
      { r with
        p := (Arithmetic.addWithCarry width r.a value r.p).2
        a := width.merge r.a (Arithmetic.addWithCarry width r.a value r.p).1 }
  | subtraction (width : Width) (value : UInt16) : Change fun r =>
      { r with
        p := (Arithmetic.subtractWithBorrow width r.a value r.p).2
        a := width.merge r.a (Arithmetic.subtractWithBorrow width r.a value r.p).1 }
  | comparison (register : DataRegister) (width : Width) (value : UInt16) : Change fun r =>
      { r with p := Arithmetic.compare width (r.data register) value r.p }
  | testBits (width : Width) (value : UInt16) (isConstant : Bool) :
      Change fun r => r.testBits width value isConstant
  | flag (flag : Flag) (value : Bool) (hm : flag ≠ .narrowAccumulator) (hx : flag ≠ .narrowIndex) :
      Change fun r => { r with p := r.p.put flag value }
  | shift (kind : Shift) (width : Width) (old : UInt16) : Change fun r =>
      { r with
        p := (r.p.put .carry (kind.carryOut width old)).describe width
          (kind.value width (r.p.has .carry) old) }
  | description (width : Width) (value : UInt16) :
      Change fun r => { r with p := r.p.describe width value }
  | assign (target : DataRegister) (value : Registers → UInt16) :
      Change fun r => r.assign target (value r)
  | stepData (target : DataRegister) (delta : UInt16) : Change fun r => r.stepData target delta
  | assignWord (target : WordRegister) (value : Registers → UInt16)
      (htarget : target = .a ∨ target = .d) : Change fun r => r.assignWord target (value r)
  | assignStack (value : Registers → UInt16) : Change fun r => r.assignStack (value r)
  | assignPulled (value : UInt16) (target : Pulled) : Change fun r => r.assignPulled value target
  | swapBytes : Change swapBytes
  | moveOn (delta : UInt16) : Change fun r => r.moveOn delta
  | setStatus (p : Status) : Change fun r => r.setStatus p
  | putStatus (mask : UInt8) (value : Bool) : Change fun r => r.putStatus mask value
  | exchangeEmulation : Change exchangeEmulation

end Console816.Registers
