import Console816.Console
import Console816.Journal.Bus

namespace Console816

-- A console that keeps a journal. Apart from that it does what a console does.
structure ObservedConsole where
  console : Console
  journal : Journal

namespace ObservedConsole

-- Runs the processor on the bus, with the journal beside it.
def onBus {α : Type} (observed : ObservedConsole)
    (work : Processor → Observed Bus → Except ProcessorError α × Processor × Observed Bus) :
    Except ConsoleError α × ObservedConsole :=
  match observed with
  | ⟨⟨processor, bus⟩, journal⟩ =>
    match work processor ⟨bus, journal⟩ with
    | (.ok value, processor, ⟨bus, journal⟩) => (.ok value, ⟨⟨processor, bus⟩, journal⟩)
    | (.error error, processor, ⟨bus, journal⟩) =>
      (.error (.processor error), ⟨⟨processor, bus⟩, journal⟩)

def reset (observed : ObservedConsole) : Except ConsoleError Unit × ObservedConsole :=
  match observed with
  | ⟨⟨processor, bus⟩, journal⟩ =>
    match onBus ⟨⟨processor, bus.reset⟩, journal.note .consoleReset⟩ Processor.observedReset with
    | (.ok _, observed) => (.ok (), observed)
    | (.error error, observed) => (.error error, observed)

def insert (observed : ObservedConsole) (cartridge : Cartridge) :
    Except ConsoleError Unit × ObservedConsole :=
  match observed with
  | ⟨⟨processor, bus⟩, journal⟩ =>
    let journal := journal.note (.inserting cartridge.title cartridge.mapping)
    reset ⟨⟨processor, bus.insert cartridge⟩, journal⟩

def load (observed : ObservedConsole) (data : ByteArray) :
    Except ConsoleError Unit × ObservedConsole :=
  let observed := { observed with journal := observed.journal.noteAll (Cartridge.remarks data) }
  match Cartridge.ofBytes data with
  | .error error => (.error (.cartridge error), observed)
  | .ok cartridge => observed.insert cartridge

def tick (observed : ObservedConsole) : Except ConsoleError UInt32 × ObservedConsole :=
  match onBus observed Processor.observedTick with
  | (.ok cycles, ⟨⟨processor, bus⟩, journal⟩) =>
    let (pause, bus) := bus.takePause
    (.ok (cycles.toUInt32 + pause), ⟨⟨processor, bus⟩, journal⟩)
  | (.error error, observed) => (.error error, observed)

def note (observed : ObservedConsole) (remark : Remark) : ObservedConsole :=
  { observed with journal := observed.journal.note remark }

end ObservedConsole

end Console816
