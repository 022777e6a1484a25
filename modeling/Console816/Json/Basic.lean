namespace Console816

-- A JSON document as it was written. Numbers keep the difference between integers and others, and
-- strings are kept between their quotes as they stand, since what a document does not ask for is
-- never decoded.
inductive Json where
  | null
  | bool (value : Bool)
  | integer (negative : Bool) (magnitude : Nat)
  | real (literal : List UInt8)
  | string (quoted : List UInt8)
  | array (items : List Json)
  | object (members : List (List UInt8 × Json))
  deriving Inhabited

namespace Json

def nat (value : Nat) : Json := integer false value

-- A minus sign makes a number unfit to be a natural one, in front of a zero as well.
def nat? : Json → Option Nat
  | integer false magnitude => some magnitude
  | _ => none

def int? : Json → Option Int
  | integer negative magnitude => some (if negative then -magnitude else magnitude)
  | _ => none

def bool? : Json → Option Bool
  | bool value => some value
  | _ => none

def items? : Json → Option (List Json)
  | array items => some items
  | _ => none

end Json

end Console816
