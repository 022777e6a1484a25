import Console816.Journal.Console
import Console816.Settings
import Console816.State.File
import Console816.Text.Decimal

namespace Console816

inductive SessionError where
  | noRom
  | steps (text : String) (error : NumberError)
  | reading (path : String) (error : RomError)
  | loading (error : CartridgeError)
  | starting (error : ConsoleError)
  | instruction (step : Nat) (error : ConsoleError)
  | saving (path reason : String)
  deriving DecidableEq, Repr

-- What failed, and below it what caused that, step by step.
def SessionError.trail : SessionError → List String
  | noRom => ["No ROM given: set ROM_PATH or pass a path as the first argument"]
  | steps text error => ["Invalid SNESPLAY_STEPS: " ++ text, error.message]
  | reading path error => ("Reading " ++ path) :: error.trail
  | loading error => "Loading cartridge" :: error.trail
  | starting error => error.trail
  | instruction step error => ("Instruction " ++ toString step) :: error.trail
  | saving path reason => ["Writing save state to " ++ path, reason]

-- What a session is told from outside.
structure Environment where
  romPath : Option String
  argument : Option String
  steps : Option String
  savePath : Option String
  trace : Option String

-- Where a session finds images and leaves states. A failure says why.
structure Files (m : Type → Type) where
  read : String → m (Except String ByteArray)
  write : String → ByteArray → m (Except String Unit)

namespace Environment

-- ROM_PATH comes before the argument.
def path? (environment : Environment) : Option String :=
  environment.romPath.or environment.argument

def remarks (environment : Environment) : List Remark :=
  if environment.romPath.isSome then [.usingEnvironment] else []

-- Any value at all turns the trace on.
def settings (environment : Environment) : Except SessionError Settings := do
  let steps ←
    match environment.steps with
    | none => pure ({} : Settings).steps
    | some text =>
      match Text.readNat UInt64.size text.toList with
      | .ok steps => pure steps.toUInt64
      | .error error => throw (.steps text error)
  return { steps, savePath := environment.savePath, trace := environment.trace.isSome }

end Environment

-- Counts cycles up to the next vertical blank. 64 bits would hold both counts for 2^32 steps.
structure Pacer where
  cycles : Nat := 0
  frames : Nat := 0
  deriving DecidableEq, Repr

namespace Pacer

-- Cycles between two vertical blanks: the master clock runs six times as fast as the processor.
def cyclesPerFrame : Nat := 357366 / 6

-- Even a sleeping processor takes time, so that the next vertical blank comes. At most one falls
-- into a step.
def advance (pacer : Pacer) (spent : Nat) : Bool × Pacer :=
  let cycles := pacer.cycles + max spent 1
  if cyclesPerFrame ≤ cycles then (true, ⟨cycles - cyclesPerFrame, pacer.frames + 1⟩)
  else (false, ⟨cycles, pacer.frames⟩)

end Pacer

structure Session where
  observed : ObservedConsole
  pacer : Pacer := {}

namespace Session

-- One step of the console, and the vertical blank if it is due.
def step (session : Session) (trace : Bool) : Except ConsoleError Unit × Session :=
  match session with
  | ⟨observed, pacer⟩ =>
    match observed.tick with
    | (.error error, observed) => (.error error, ⟨observed, pacer⟩)
    | (.ok cycles, observed) =>
      let observed :=
        if trace then observed.note (.registers observed.console.processor.registers)
        else observed
      match pacer.advance cycles.toNat, observed with
      | (true, pacer), ⟨console, journal⟩ => (.ok (), ⟨⟨console.verticalBlank, journal⟩, pacer⟩)
      | (false, pacer), observed => (.ok (), ⟨observed, pacer⟩)

-- Runs until the steps are used up or the processor is stopped.
def runSteps (session : Session) (trace : Bool) (done : Nat) :
    Nat → Except SessionError Unit × Session
  | 0 => (.ok (), session)
  | remaining + 1 =>
    if session.observed.console.processor.interrupts.stopped then
      (.ok (), { session with observed := session.observed.note (.stoppedAfter done) })
    else
      match session.step trace with
      | (.ok _, session) => runSteps session trace (done + 1) remaining
      | (.error error, session) => (.error (.instruction done error), session)

def run (session : Session) (settings : Settings) : Except SessionError Unit × Session :=
  let steps := settings.steps.toNat
  let session := { session with observed := session.observed.note (.running steps) }
  match runSteps session settings.trace 0 steps with
  | (.ok _, ⟨observed, pacer⟩) =>
    let processor := observed.console.processor
    let remark := Remark.finished processor.programCounter processor.cycles pacer.frames
    (.ok (), ⟨observed.note remark, pacer⟩)
  | (.error error, session) => (.error error, session)

-- A console with the cartridge that an image makes, ready to run.
def start (path : String) (contents : Except String ByteArray) (journal : Journal) :
    Except SessionError Unit × ObservedConsole :=
  let journal := journal.note (.readingRom path)
  match contents with
  | .error reason => (.error (.reading path (.unreadable reason)), ⟨.powerOn, journal⟩)
  | .ok data =>
    let journal := journal.noteAll (Rom.remarks data)
    match Rom.ofBytes data with
    | .error error => (.error (.reading path error), ⟨.powerOn, journal⟩)
    | .ok rom =>
      let journal := journal.noteAll (Cartridge.romRemarks rom)
      match Cartridge.ofRom rom with
      | .error error => (.error (.loading error), ⟨.powerOn, journal⟩)
      | .ok cartridge =>
        match ObservedConsole.insert ⟨.powerOn, journal⟩ cartridge with
        | (.ok _, observed) => (.ok (), observed)
        | (.error error, observed) => (.error (.starting error), observed)

-- The whole of a session: reads the image, runs it, and saves the state if asked to.
def perform {m : Type → Type} [Monad m] (files : Files m) (environment : Environment)
    (journal : Journal) : m (Except SessionError Unit × Journal) := do
  let journal := journal.noteAll environment.remarks
  match environment.path?, environment.settings with
  | none, _ => return (.error .noRom, journal)
  | some _, .error error => return (.error error, journal)
  | some path, .ok settings =>
    match start path (← files.read path) journal with
    | (.error error, observed) => return (.error error, observed.journal)
    | (.ok _, observed) =>
      match run { observed } settings, settings.savePath with
      | (.error error, session), _ => return (.error error, session.observed.journal)
      | (.ok _, session), none => return (.ok (), session.observed.journal)
      | (.ok _, session), some target =>
        match ← files.write target session.observed.console.saveState.toBytes with
        | .error reason => return (.error (.saving target reason), session.observed.journal)
        | .ok _ => return (.ok (), session.observed.journal.note (.saved target))

end Session

end Console816
