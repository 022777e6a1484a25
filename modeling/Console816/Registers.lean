import Console816.Status
import Console816.Text.Radix

namespace Console816

-- The names under which registers are read and set one at a time.
inductive Register where
  | a
  | x
  | y
  | d
  | s
  | pc
  | dbr
  | k
  | p
  | e
  deriving DecidableEq, Repr

namespace Register

def all : List Register := [a, x, y, d, s, pc, dbr, k, p, e]

def name : Register → String
  | a => "A"
  | x => "X"
  | y => "Y"
  | d => "D"
  | s => "S"
  | pc => "Pc"
  | dbr => "Dbr"
  | k => "K"
  | p => "P"
  | e => "E"

def bits : Register → Nat
  | a | x | y | d | s | pc => 16
  | dbr | k | p => 8
  | e => 1

def maxValue (register : Register) : Nat := 1 <<< register.bits - 1

end Register

inductive RegisterError where
  | invalidValue (register : Register) (value : Nat)
  deriving DecidableEq, Repr

def RegisterError.message : RegisterError → String
  | .invalidValue register value =>
    "Invalid value " ++ Text.marked value ++ " for register " ++ register.name

-- The register file. K is the program bank, DBR the data bank and `emulation` the E bit.
structure Registers where
  a : UInt16
  x : UInt16
  y : UInt16
  s : UInt16
  d : UInt16
  dbr : UInt8
  k : UInt8
  pc : UInt16
  p : Status
  emulation : Bool
  deriving DecidableEq, Repr, Inhabited

namespace Registers

def powerOn : Registers where
  a := 0
  x := 0
  y := 0
  s := 0x0100
  d := 0
  dbr := 0
  k := 0
  pc := 0
  p := .powerOn
  emulation := true

def get (r : Registers) : Register → Nat
  | .a => r.a.toNat
  | .x => r.x.toNat
  | .y => r.y.toNat
  | .d => r.d.toNat
  | .s => r.s.toNat
  | .pc => r.pc.toNat
  | .dbr => r.dbr.toNat
  | .k => r.k.toNat
  | .p => r.p.byte.toNat
  | .e => r.emulation.toNat

private def put (r : Registers) (value : Nat) : Register → Registers
  | .a => { r with a := value.toUInt16 }
  | .x => { r with x := value.toUInt16 }
  | .y => { r with y := value.toUInt16 }
  | .d => { r with d := value.toUInt16 }
  | .s => { r with s := value.toUInt16 }
  | .pc => { r with pc := value.toUInt16 }
  | .dbr => { r with dbr := value.toUInt8 }
  | .k => { r with k := value.toUInt8 }
  | .p => { r with p := ⟨value.toUInt8⟩ }
  | .e => { r with emulation := value != 0 }

-- A value that does not fit is refused. Nothing else is checked, so the width rules that
-- instructions keep can be broken this way.
def set (r : Registers) (register : Register) (value : Nat) : Except RegisterError Registers :=
  if register.maxValue < value then .error (.invalidValue register value)
  else .ok (r.put value register)

def getLow (r : Registers) (register : Register) : Nat := r.get register % 0x100

def getHigh (r : Registers) (register : Register) : Nat := r.get register / 0x100

def setLow (r : Registers) (register : Register) (value : UInt8) : Except RegisterError Registers :=
  r.set register (r.getHigh register * 0x100 + value.toNat)

def setHigh (r : Registers) (register : Register) (value : UInt8) :
    Except RegisterError Registers :=
  r.set register (value.toNat * 0x100 + r.getLow register)

def accumulatorWidth (r : Registers) : Width := r.p.accumulatorWidth

def indexWidth (r : Registers) : Width := r.p.indexWidth

-- Replaces P. Emulation mode keeps M and X set, and 8-bit index registers lose their high bytes.
def setStatus (r : Registers) (value : Status) : Registers :=
  let p := if r.emulation then (value.put .narrowAccumulator true).put .narrowIndex true else value
  if p.has .narrowIndex then { r with p, x := r.x &&& 0xFF, y := r.y &&& 0xFF }
  else { r with p }

-- Entering emulation mode also moves the stack to page 1.
def setEmulation (r : Registers) (emulation : Bool) : Registers :=
  if emulation then
    { r with emulation, s := 0x0100 ||| (r.s &&& 0xFF) }.setStatus r.p
  else { r with emulation }

-- The stack grows downwards. In emulation mode it wraps inside page 1.
def stackDown (r : Registers) : Registers :=
  { r with s := if r.emulation then 0x0100 ||| ((r.s - 1) &&& 0xFF) else r.s - 1 }

def stackUp (r : Registers) : Registers :=
  { r with s := if r.emulation then 0x0100 ||| ((r.s + 1) &&& 0xFF) else r.s + 1 }

-- RESET leaves A and the low bytes of X and Y. PC is loaded from the vector afterwards.
def reset (r : Registers) : Registers :=
  { r with
    emulation := true
    p := .powerOn
    s := 0x0100
    d := 0
    dbr := 0
    k := 0
    x := r.x &&& 0xFF
    y := r.y &&& 0xFF }

def text (r : Registers) : String :=
  "a:" ++ Text.hexWord r.a ++ " x:" ++ Text.hexWord r.x ++ " y:" ++ Text.hexWord r.y ++
    " s:" ++ Text.hexWord r.s ++ " d:" ++ Text.hexWord r.d ++ " dbr:" ++ Text.hexByte r.dbr ++
    " emu:" ++ toString r.emulation.toNat ++ " " ++ r.p.text

end Registers

end Console816
