import Console816.Json.Printer
import Console816.Json.Reader
import Console816.State.Document
import Console816.State.Frame

namespace Console816.ConsoleState

-- Documents are printed and read, and containers are filled and opened, by functions of the
-- caller's choice.
section Formats

variable (print : Json → List UInt8) (read? : List UInt8 → Option Json)
variable (store : List UInt8 → List UInt8) (contents? : List UInt8 → Option (List UInt8))

def text (state : ConsoleState) : List UInt8 := print state.toJson

def ofText? (text : List UInt8) : Option ConsoleState := (read? text).bind ofJson?

def toContainer (state : ConsoleState) : List UInt8 := store (state.text print)

-- The state whose text a container holds.
def ofContainer (container : List UInt8) : Except StateError ConsoleState :=
  match contents? container with
  | none => .error .corrupt
  | some text =>
    match ofText? read? text with
    | none => .error .malformed
    | some state => .ok state

end Formats

-- The contents of a state file.
def toBytes (state : ConsoleState) : ByteArray :=
  ⟨(state.toContainer (·.bytes.data.toList) Frame.store).toArray⟩

def ofBytes (data : ByteArray) : Except StateError ConsoleState :=
  ofContainer Json.parse? Frame.contents? data.data.toList

end Console816.ConsoleState
