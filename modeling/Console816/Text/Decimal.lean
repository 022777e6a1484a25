namespace Console816

inductive NumberError where
  | empty
  | invalidDigit
  | tooLarge
  deriving DecidableEq, Repr

def NumberError.message : NumberError → String
  | empty => "cannot parse integer from empty string"
  | invalidDigit => "invalid digit found in string"
  | tooLarge => "number too large to fit in target type"

namespace Text

-- Reads digits from the left and stops at the first thing that is wrong. A character that is no
-- digit is noticed before the number it would make too large.
def readDigits (bound value : Nat) : List Char → Except NumberError Nat
  | [] => .ok value
  | c :: rest =>
    if c.isDigit then
      let value := value * 10 + (c.toNat - 48)
      if value < bound then readDigits bound value rest else .error .tooLarge
    else .error .invalidDigit

-- A decimal number below `bound`. It may have a plus sign, and blanks nowhere.
def readNat (bound : Nat) (text : List Char) : Except NumberError Nat :=
  match text with
  | [] => .error .empty
  | ['+'] => .error .invalidDigit
  | '+' :: digits => readDigits bound 0 digits
  | digits => readDigits bound 0 digits

end Text

end Console816
