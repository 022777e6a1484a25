import Console816.Status

namespace Console816

namespace Arithmetic

-- A decimal digit of ten and more goes six further, out of its place.
def correctSum (place sum : Int) : Int := if 10 * place ≤ sum then sum + 6 * place else sum

-- Where a complement was added, a digit that stays in its place stands for a borrow.
def correctDifference (place sum : Int) : Int := if sum < 16 * place then sum - 6 * place else sum

-- Adds the digits from `place` on to the sum of those below, which is corrected first. It carries
-- one at most.
def addDigits (correct : Int → Int → Int) (a b place sum : Int) : Nat → Int
  | 0 => sum
  | remaining + 1 =>
    let below := correct (place / 16) sum
    let carry := if place ≤ below then place else 0
    addDigits correct a b (16 * place)
      (a / place % 16 * place + b / place % 16 * place + below % place + carry) remaining

-- V is about the sum as it came out, all else about the one that was corrected.
def conclude (width : Width) (a b : UInt16) (sum corrected : Int) (p : Status) :
    UInt16 × Status :=
  let overflow := ~~~(a ^^^ b) &&& (a ^^^ UInt16.ofInt sum) &&& width.signBit != 0
  let carry : Bool := width.mask.toNat < corrected
  let value := UInt16.ofInt corrected
  (width.truncate value, ((p.put .overflow overflow).put .carry carry).describe width value)

-- a + b + C. In decimal mode, digits are corrected from the lowest on, and the highest one last.
def addCorrected (correct : Int → Int → Int) (width : Width) (a b : UInt16) (p : Status) :
    UInt16 × Status :=
  let a := width.truncate a
  let b := width.truncate b
  let carry := (p.has .carry).toNat
  if p.has .decimal then
    let lowest : Int := a.toNat % 16 + b.toNat % 16 + carry
    let sum := addDigits correct a.toNat b.toNat 16 lowest (width.bits / 4 - 1)
    let highest : Nat := 1 <<< (width.bits - 4)
    conclude width a b sum (correct highest sum) p
  else
    let sum : Int := a.toNat + b.toNat + carry
    conclude width a b sum sum p

def addWithCarry (width : Width) (a b : UInt16) (p : Status) : UInt16 × Status :=
  addCorrected correctSum width a b p

-- a - b - (1 - C), as an addition of the complement.
def subtractWithBorrow (width : Width) (a b : UInt16) (p : Status) : UInt16 × Status :=
  addCorrected correctDifference width a (~~~b) p

-- The flags of a binary subtraction whose result is dropped. C means no borrow.
def compare (width : Width) (register value : UInt16) (p : Status) : Status :=
  (p.put .carry (width.truncate value ≤ width.truncate register)).describe width
    (width.truncate register - width.truncate value)

end Arithmetic

-- Shifts move bits out into C. Rotates also move the old C in.
inductive Shift where
  | left
  | right
  | rotateLeft
  | rotateRight
  deriving DecidableEq, Repr

namespace Shift

def value (width : Width) (carry : Bool) (value : UInt16) : Shift → UInt16
  | left => value <<< 1
  | right => value >>> 1
  | rotateLeft => (value <<< 1) ||| carry.toUInt16
  | rotateRight => (value >>> 1) ||| (if carry then width.signBit else 0)

def carryOut (width : Width) (value : UInt16) : Shift → Bool
  | left | rotateLeft => value &&& width.signBit != 0
  | right | rotateRight => value &&& 1 != 0

end Shift

end Console816
