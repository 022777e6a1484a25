import Console816.Proofs.State.Document
import Console816.Proofs.State.Frame
import Console816.State.File

namespace Console816.ConsoleState

section Formats

variable {print : Json → List UInt8} {read? : List UInt8 → Option Json}
variable (hread : ∀ {document : Json}, document.Common → read? (print document) = some document)
include hread

theorem ofText?_text (state : ConsoleState) : ofText? read? (state.text print) = some state := by
  rw [ofText?, text, hread state.common_toJson]
  exact ofJson?_toJson state

-- Where documents are read as they were printed, a state is read back from its text, and from every
-- container that keeps what it is given.
theorem reads_back (state : ConsoleState) :
    ofText? read? (state.text print) = some state ∧
      ∀ {store : List UInt8 → List UInt8} {contents? : List UInt8 → Option (List UInt8)},
        (∀ text, contents? (store text) = some text) →
          ofContainer read? contents? (state.toContainer print store) = .ok state := by
  have htext := ofText?_text hread state
  refine ⟨htext, ?_⟩
  intro store contents? hstore
  simp only [ofContainer, toContainer, hstore, htext]

end Formats

-- A state with empty SRAM and more cycles than a double can count.
def extreme : ConsoleState where
  processor := { Processor.powerOn.saveState with cycles := 0xFFFFFFFFFFFFFFFF }
  bus := { Bus.powerOn.saveState with sram := some .empty }

theorem extreme_reads_back : ofBytes extreme.toBytes = .ok extreme :=
  (reads_back (fun hcommon => Json.parse?_bytes hcommon.writable) extreme).2 Frame.contents?_store

end Console816.ConsoleState
