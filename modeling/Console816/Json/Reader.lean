import Console816.Json.Token

namespace Console816.Json

-- A container that is not closed yet. Its parts are kept last one first.
inductive Frame where
  | array (items : List Json)
  | object (members : List (List UInt8 × Json)) (key : List UInt8)

-- What may come next.
inductive Reading where
  | value (stack : List Frame)
  | firstItem (stack : List Frame)
  | moreItems (items : List Json) (stack : List Frame)
  | firstKey (stack : List Frame)
  | key (members : List (List UInt8 × Json)) (stack : List Frame)
  | colon (members : List (List UInt8 × Json)) (key : List UInt8) (stack : List Frame)
  | moreMembers (members : List (List UInt8 × Json)) (stack : List Frame)
  | done (value : Json)

namespace Reading

-- A finished value goes into the innermost open container.
def complete (finished : Json) : List Frame → Reading
  | [] => done finished
  | .array items :: stack => moreItems (finished :: items) stack
  | .object members name :: stack => moreMembers ((name, finished) :: members) stack

private def readValue (stack : List Frame) : Token → Option Reading
  | .atom finished => some (complete finished stack)
  | .openArray => some (firstItem stack)
  | .openObject => some (firstKey stack)
  | _ => none

def step : Reading → Token → Option Reading
  | value stack, token => readValue stack token
  | firstItem stack, .closeArray => some (complete (.array []) stack)
  | firstItem stack, token => readValue (.array [] :: stack) token
  | moreItems items stack, .comma => some (value (.array items :: stack))
  | moreItems items stack, .closeArray => some (complete (.array items.reverse) stack)
  | firstKey stack, .closeObject => some (complete (.object []) stack)
  | firstKey stack, .atom (.string name) => some (colon [] name stack)
  | key members stack, .atom (.string name) => some (colon members name stack)
  | colon members name stack, .colon => some (value (.object members name :: stack))
  | moreMembers members stack, .comma => some (key members stack)
  | moreMembers members stack, .closeObject => some (complete (.object members.reverse) stack)
  | _, _ => none

end Reading

def ofTokens? (tokens : List Token) : Option Json := do
  match ← tokens.foldlM Reading.step (.value []) with
  | .done value => some value
  | _ => none

-- Blanks may stand around the document, nothing else may.
def parse? (input : List UInt8) : Option Json := do
  ofTokens? (← Token.ofBytes? input)

end Console816.Json
