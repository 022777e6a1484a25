import Console816.Console
import Console816.Proofs.Bus.Commands
import Console816.Proofs.Bus.Transfers

namespace Console816

namespace Bus

theorem loadsAlike_unpaused :
    Execution.LoadsAlike fun bus other : Bus => bus = other ∧ bus.pause = 0 where
  loaded address bus other hsame := by
    obtain ⟨rfl, hpause⟩ := hsame
    exact ⟨rfl, rfl, (bus.pause_read address).trans hpause⟩

-- Whatever a processor does to a bus, the sizes stay.
theorem lockstep_steady (start : Bus) :
    Execution.Lockstep (fun _ => True) fun bus other : Bus => bus = other ∧ Steady start bus where
  changed _ _ := trivial
  loaded address bus other hsame := by
    obtain ⟨rfl, hsteady⟩ := hsame
    exact ⟨rfl, rfl, hsteady.trans (bus.steady_read address)⟩
  stored address value bus other hsame := by
    obtain ⟨rfl, hsteady⟩ := hsame
    exact ⟨rfl, rfl, hsteady.trans (bus.steady_write address value)⟩

-- It stays one that can be reached.
theorem lockstep_reachable :
    Execution.Lockstep (fun _ => True) fun bus other : Bus => bus = other ∧ bus.Reachable :=
  Execution.lockstep_of_memory (fun address _ hbus => hbus.apply (.read address))
    fun address value _ hbus => hbus.apply (.write address value)

end Bus

namespace Console

inductive Command where
  | load (data : ByteArray)
  | insert (cartridge : Cartridge)
  | reset
  | tick
  | verticalBlank
  | raiseIrq

namespace Command

-- A tick answers with its cycles.
def apply (console : Console) : Command → Except ConsoleError (Option UInt32) × Console
  | load data => ((console.load data).1.map fun _ => none, (console.load data).2)
  | insert cartridge =>
    ((console.insert cartridge).1.map fun _ => none, (console.insert cartridge).2)
  | reset => (console.reset.1.map fun _ => none, console.reset.2)
  | tick => (console.tick.1.map some, console.tick.2)
  | verticalBlank => (.ok none, console.verticalBlank)
  | raiseIrq => (.ok none, console.raiseIrq)

-- The cartridge that is in after the command.
def inserted (current : Option Cartridge.Hardware) : Command → Option Cartridge.Hardware
  | load data =>
    match Cartridge.ofBytes data with
    | .ok cartridge => some cartridge.hardware
    | .error _ => current
  | insert cartridge => some cartridge.hardware
  | _ => current

def settles (console : Console) (settled : Bool) : Command → Bool
  | tick => console.tick.1.isOk
  | _ => settled

end Command

def run (console : Console) : List Command → Console
  | [] => console
  | command :: rest => run (command.apply console).2 rest

theorem run_append (console : Console) (before after : List Command) :
    console.run (before ++ after) = (console.run before).run after := by
  induction before generalizing console with
  | nil => rfl
  | cons command rest ih => exact ih _

def inserted (current : Option Cartridge.Hardware) : List Command → Option Cartridge.Hardware
  | [] => current
  | command :: rest => inserted (command.inserted current) rest

-- Whether the last tick gave no error. `settled` is for runs without a tick.
def settlesAfter (console : Console) (settled : Bool) : List Command → Bool
  | [] => settled
  | command :: rest =>
    settlesAfter (command.apply console).2 (command.settles console settled) rest

-- What holds of every console that is reached. A tick that fails may leave a pause behind, which no
-- state holds.
structure Sound (inserted : Option Cartridge.Hardware) (settled : Bool) (console : Console) :
    Prop where
  opcodes : console.processor.opcodes = .standard
  bus : console.bus.Sized inserted
  pause : settled = true → console.bus.pause = 0

theorem sound_powerOn : powerOn.Sound none true := ⟨rfl, Bus.sized_powerOn, fun _ => rfl⟩

namespace Sound

variable {inserted : Option Cartridge.Hardware} {settled : Bool} {console : Console}

-- A reset forgets the pause, and makes none.
theorem reset (hsound : console.Sound inserted settled) :
    console.reset.2.Sound inserted settled := by
  obtain ⟨processor, bus⟩ := console
  have hopcodes := processor.opcodes_execute (Execution.enter .reset) bus.reset
  have hsteady := (Processor.sameOutcome_reset (Bus.lockstep_steady bus.reset) processor trivial
    ⟨rfl, .refl bus.reset⟩).memory.2
  have hpause : (processor.reset bus.reset).2.2.pause = 0 :=
    (Processor.sameOutcome_execute
      (Bus.loadsAlike_unpaused.enterReset (fun _ (_ : True) => trivial) fun _ _ _ => trivial)
      processor trivial ⟨rfl, rfl⟩).memory.2
  have hsized := hsound.bus.reset.steady hsteady
  change (processor.reset bus.reset).2.1.opcodes = _ at hopcodes
  simp only [Console.reset]
  rcases hreset : processor.reset bus.reset with ⟨answer, after, left⟩
  rw [hreset] at hopcodes hsized hpause
  cases answer <;> exact ⟨hopcodes.trans hsound.opcodes, hsized, fun _ => hpause⟩

theorem insert (hsound : console.Sound inserted settled) (cartridge : Cartridge) :
    (console.insert cartridge).2.Sound (some cartridge.hardware) settled :=
  Sound.reset ⟨hsound.opcodes, hsound.bus.insert cartridge, hsound.pause⟩

theorem tick (hsound : console.Sound inserted settled) :
    console.tick.2.Sound inserted console.tick.1.isOk := by
  obtain ⟨processor, bus⟩ := console
  have hopcodes := processor.opcodes_execute (Execution.tick processor.opcodes) bus
  have hsteady := (Processor.sameOutcome_tick (Bus.lockstep_steady bus) processor trivial
    ⟨rfl, .refl bus⟩).memory.2
  have hsized := hsound.bus.steady hsteady
  change (processor.tick bus).2.1.opcodes = _ at hopcodes
  simp only [Console.tick]
  rcases htick : processor.tick bus with ⟨answer, after, left⟩
  rw [htick] at hopcodes hsized
  cases answer with
  | error error => exact ⟨hopcodes.trans hsound.opcodes, hsized, nofun⟩
  | ok cycles =>
      exact ⟨hopcodes.trans hsound.opcodes,
        ⟨hsized.workRam, hsized.bRegisters, hsized.cartridge⟩, fun _ => rfl⟩

theorem apply (hsound : console.Sound inserted settled) (command : Command) :
    (command.apply console).2.Sound (command.inserted inserted)
      (command.settles console settled) := by
  cases command with
  | load data =>
      simp only [Command.apply, Command.inserted, Console.load]
      cases Cartridge.ofBytes data with
      | error error => exact hsound
      | ok cartridge => exact hsound.insert cartridge
  | insert cartridge => exact hsound.insert cartridge
  | reset => exact hsound.reset
  | tick => exact hsound.tick
  | verticalBlank =>
      have hbus : { console.bus with io := console.bus.io.raiseNmiFlag }.Sized inserted :=
        ⟨hsound.bus.workRam, hsound.bus.bRegisters, hsound.bus.cartridge⟩
      simp only [Command.apply, Console.verticalBlank]
      split <;> exact ⟨hsound.opcodes, hbus, hsound.pause⟩
  | raiseIrq => exact ⟨hsound.opcodes, hsound.bus, hsound.pause⟩

theorem run (hsound : console.Sound inserted settled) (commands : List Command) :
    (run console commands).Sound (Console.inserted inserted commands)
      (settlesAfter console settled commands) := by
  induction commands generalizing console inserted settled with
  | nil => exact hsound
  | cons command rest ih => exact ih (hsound.apply command)

end Sound

theorem reachable_reset {console : Console} (hbus : console.bus.Reachable) :
    console.reset.2.bus.Reachable := by
  obtain ⟨processor, bus⟩ := console
  have hafter := (Processor.sameOutcome_reset Bus.lockstep_reachable processor trivial
    ⟨rfl, hbus.apply .reset⟩).memory.2
  simp only [Console.reset]
  change (processor.reset bus.reset).2.2.Reachable at hafter
  rcases hreset : processor.reset bus.reset with ⟨answer, after, left⟩
  rw [hreset] at hafter
  cases answer <;> exact hafter

theorem reachable_tick {console : Console} (hbus : console.bus.Reachable) :
    console.tick.2.bus.Reachable := by
  obtain ⟨processor, bus⟩ := console
  have hafter := (Processor.sameOutcome_tick Bus.lockstep_reachable processor trivial
    ⟨rfl, hbus⟩).memory.2
  simp only [Console.tick]
  rcases htick : processor.tick bus with ⟨answer, after, left⟩
  rw [htick] at hafter
  cases answer with
  | ok cycles => exact hafter.apply .takePause
  | error error => exact hafter

theorem reachable_apply {console : Console} (command : Command) (hbus : console.bus.Reachable) :
    (command.apply console).2.bus.Reachable := by
  cases command with
  | load data =>
      simp only [Command.apply, Console.load]
      cases Cartridge.ofBytes data with
      | error error => exact hbus
      | ok cartridge => exact reachable_reset (hbus.apply (.insert cartridge))
  | insert cartridge => exact reachable_reset (hbus.apply (.insert cartridge))
  | reset => exact reachable_reset hbus
  | tick => exact reachable_tick hbus
  | verticalBlank =>
      simp only [Command.apply, Console.verticalBlank]
      split <;> exact hbus.verticalBlank
  | raiseIrq => exact hbus

theorem reachable_run {console : Console} (commands : List Command)
    (hbus : console.bus.Reachable) : (run console commands).bus.Reachable := by
  induction commands generalizing console with
  | nil => exact hbus
  | cons command rest ih => exact ih (reachable_apply command hbus)

end Console

end Console816
