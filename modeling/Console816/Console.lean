import Console816.Bus.State
import Console816.Processor

namespace Console816

inductive ConsoleError where
  | cartridge (error : CartridgeError)
  | processor (error : ProcessorError)
  | state (error : StateError)
  deriving DecidableEq, Repr

namespace BusError

def trail : BusError → List String
  | invalidAddress error => [message (invalidAddress error), error.message]
  | error => [error.message]

end BusError

namespace ProcessorError

def trail : ProcessorError → List String
  | bus error => message (bus error) :: error.trail
  | error => [error.message]

end ProcessorError

namespace ConsoleError

def message : ConsoleError → String
  | cartridge error => "Loading cartridge:\n- " ++ error.message
  | processor error => "CPU error:\n- " ++ error.message
  | state error => "Save state:\n- " ++ error.message

def trail : ConsoleError → List String
  | cartridge error => message (cartridge error) :: error.trail
  | processor error => message (processor error) :: error.trail
  | state error => message (state error) :: error.trail

end ConsoleError

-- The processor and the bus it runs on.
structure Console where
  processor : Processor
  bus : Bus

structure ConsoleState where
  processor : ProcessorState
  bus : BusState
  deriving DecidableEq

namespace Console

def powerOn : Console := ⟨.powerOn, .powerOn⟩

instance : Inhabited Console := ⟨powerOn⟩

-- The processor's answer, with the console it leaves.
def afterProcessor {α : Type} (result : Except ProcessorError α × Processor × Bus) :
    Except ConsoleError α × Console :=
  match result with
  | (.ok value, processor, bus) => (.ok value, ⟨processor, bus⟩)
  | (.error error, processor, bus) => (.error (.processor error), ⟨processor, bus⟩)

def reset (console : Console) : Except ConsoleError Unit × Console :=
  match console with
  | ⟨processor, bus⟩ =>
    match afterProcessor (processor.reset bus.reset) with
    | (.ok _, console) => (.ok (), console)
    | (.error error, console) => (.error error, console)

def insert (console : Console) (cartridge : Cartridge) : Except ConsoleError Unit × Console :=
  reset { console with bus := console.bus.insert cartridge }

-- Inserts the cartridge that an image makes, if it makes one.
def load (console : Console) (data : ByteArray) : Except ConsoleError Unit × Console :=
  match Cartridge.ofBytes data with
  | .error error => (.error (.cartridge error), console)
  | .ok cartridge => console.insert cartridge

-- One step of the processor. The answer counts the cycles of the transfers it started.
def tick (console : Console) : Except ConsoleError UInt32 × Console :=
  match console with
  | ⟨processor, bus⟩ =>
    match afterProcessor (processor.tick bus) with
    | (.ok cycles, ⟨processor, bus⟩) =>
      let (pause, bus) := bus.takePause
      (.ok (cycles.toUInt32 + pause), ⟨processor, bus⟩)
    | (.error error, console) => (.error error, console)

-- The flag of a vertical blank is set in any case, the interrupt is raised where it is enabled.
def verticalBlank (console : Console) : Console :=
  let console := { console with bus := { console.bus with io := console.bus.io.raiseNmiFlag } }
  if console.bus.io.nmiEnabled then
    { console with processor := console.processor.request .nmi }
  else console

def raiseIrq (console : Console) : Console :=
  { console with processor := console.processor.request .irq }

def saveState (console : Console) : ConsoleState :=
  ⟨console.processor.saveState, console.bus.saveState⟩

def loadState (console : Console) (state : ConsoleState) : Except ConsoleError Unit × Console :=
  match console with
  | ⟨processor, bus⟩ =>
    match bus.loadState state.bus with
    | (.ok _, bus) => (.ok (), ⟨processor.loadState state.processor, bus⟩)
    | (.error error, bus) => (.error (.state error), ⟨processor, bus⟩)

end Console

end Console816
