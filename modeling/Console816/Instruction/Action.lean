import Console816.Arithmetic
import Console816.Interrupt

namespace Console816

-- The registers that carry data. A has the accumulator width, X and Y the index width.
inductive DataRegister where
  | a
  | x
  | y
  deriving DecidableEq, Repr

-- The registers that are copied as whole words.
inductive WordRegister where
  | a
  | x
  | y
  | s
  | d
  deriving DecidableEq, Repr

-- What PHA and the other pushes put on the stack.
inductive Pushed where
  | data (register : DataRegister)
  | direct
  | dataBank
  | programBank
  | status
  deriving DecidableEq, Repr

-- Where PLA and the other pulls put what they find.
inductive Pulled where
  | data (register : DataRegister)
  | direct
  | dataBank
  | status
  deriving DecidableEq, Repr

inductive Condition where
  | always
  | flag (flag : Flag) (value : Bool)
  deriving DecidableEq, Repr

-- What an instruction does, apart from where its operand is.
inductive Action where
  | add
  | subtract
  | conjoin
  | disjoin
  | exclude
  | compare (register : DataRegister)
  | testBits
  | putBits (value : Bool)
  | shift (kind : Shift)
  | step (delta : UInt16)
  | stepIndex (register : DataRegister) (delta : UInt16)
  | load (register : DataRegister)
  | store (register : DataRegister)
  | storeZero
  | copy (target : DataRegister) (source : WordRegister)
  | copyWord (target source : WordRegister)
  | copyToStack (source : WordRegister)
  | swapBytes
  | blockMove (delta : UInt16)
  | push (source : Pushed)
  | pull (target : Pulled)
  | pushAddress
  | branch (condition : Condition) (extra : Nat)
  | jump
  | jumpLong
  | call
  | callLong
  | returnNear
  | returnLong
  | returnInterrupt
  | raise (interrupt : Interrupt)
  | putFlag (flag : Flag) (value : Bool)
  | putStatus (value : Bool)
  | exchangeEmulation
  | wait
  | stop
  | nothing
  deriving DecidableEq, Repr

end Console816
