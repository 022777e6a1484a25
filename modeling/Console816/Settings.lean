import Console816.Json.Reader
import Console816.Json.Record

namespace Console816

-- How a console is to be driven without a screen.
structure Settings where
  -- how many instructions to execute
  steps : UInt64 := 1000000
  -- where to write the state once the run ends
  savePath : Option String := none
  -- whether to note the registers after every instruction
  trace : Bool := false
  deriving DecidableEq, Repr

namespace Settings

-- What a document leaves out keeps its default.
def ofJson? (document : Json) : Option Settings := do
  match ← document.fields? ["steps", "save_state_path", "trace"] true with
  | [steps, savePath, trace] =>
    return {
      steps := ← steps.elim (some ({} : Settings).steps) Json.uint64?
      savePath := ← Json.option? Json.text? savePath
      trace := ← trace.elim (some ({} : Settings).trace) Json.bool? }
  | _ => none

def parse? (text : String) : Option Settings := do
  ofJson? (← Json.parse? text.toUTF8.data.toList)

end Settings

end Console816
