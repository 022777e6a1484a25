import Console816.Proofs.Bus.State
import Console816.Proofs.Bus.Title
import Console816.Proofs.Console.Commands

namespace Console816

namespace Cartridge

variable {cartridge other : Cartridge}

-- A cartridge takes the SRAM of another one like it, and is then the same but for the title.
theorem restoreSram_of_hardware (hhardware : other.hardware = cartridge.hardware) :
    ∃ restored, other.restoreSram cartridge.sram = .ok restored ∧
      restored.untitled = cartridge.untitled := by
  have hrom : other.rom = cartridge.rom := congrArg Hardware.rom hhardware
  have hmapping : other.mapping = cartridge.mapping := congrArg Hardware.mapping hhardware
  have hsize : other.sram.size = cartridge.sram.size := congrArg Hardware.sramBytes hhardware
  refine ⟨{ other with sram := cartridge.sram }, if_pos hsize.symm, ?_⟩
  simp only [untitled, hrom, hmapping]

end Cartridge

namespace Bus

theorem cartridgeWith_of_hardware {cartridge other : Option Cartridge}
    (hhardware : other.map Cartridge.hardware = cartridge.map Cartridge.hardware) :
    ∃ after, cartridgeWith other (cartridge.map (·.sram)) = .ok after ∧
      after.map Cartridge.untitled = cartridge.map Cartridge.untitled := by
  cases cartridge with
  | none =>
      obtain rfl := Option.map_eq_none_iff.mp hhardware
      exact ⟨none, rfl, rfl⟩
  | some cartridge =>
      obtain ⟨other, rfl, hone⟩ := Option.map_eq_some_iff.mp hhardware
      obtain ⟨restored, hrestored, huntitled⟩ := Cartridge.restoreSram_of_hardware hone
      refine ⟨some restored, ?_, congrArg some huntitled⟩
      simp only [cartridgeWith, Option.map_some, hrestored]

theorem cartridgeWith_self (cartridge : Option Cartridge) :
    cartridgeWith cartridge (cartridge.map (·.sram)) = .ok cartridge := by
  cases cartridge with
  | none => rfl
  | some cartridge => simp only [cartridgeWith, Option.map_some, Cartridge.restoreSram, if_true]

end Bus

namespace Console

-- All that is seen of a run: the answer to each command, and the state that could be saved then.
def observe (console : Console) :
    List Command → List (Except ConsoleError (Option UInt32) × ConsoleState)
  | [] => []
  | command :: rest =>
    let (answer, after) := command.apply console
    (answer, after.saveState) :: observe after rest

-- Consoles that differ in the title of their cartridges at most.
structure SameButTitle (console other : Console) : Prop where
  processor : console.processor = other.processor
  bus : console.bus.untitled = other.bus.untitled

namespace SameButTitle

variable {console other : Console}

theorem saveState (hsame : console.SameButTitle other) : console.saveState = other.saveState := by
  have hbus : console.bus.saveState = other.bus.saveState := by
    rw [← Bus.saveState_untitled, hsame.bus, Bus.saveState_untitled]
  simp only [Console.saveState, hsame.processor, hbus]

theorem reset (hsame : console.SameButTitle other) :
    console.reset.1 = other.reset.1 ∧ console.reset.2.SameButTitle other.reset.2 := by
  obtain ⟨processor, bus⟩ := console
  obtain ⟨processor', bus'⟩ := other
  obtain ⟨hprocessor, hbus⟩ := hsame
  obtain rfl : processor = processor' := hprocessor
  have hreset : bus.reset.untitled = bus'.reset.untitled := congrArg Bus.reset hbus
  obtain ⟨hanswer, hafter, -, hmemory⟩ :=
    Processor.sameOutcome_reset Bus.lockstep_untitled processor trivial hreset
  simp only [Console.reset]
  rcases hone : processor.reset bus.reset with ⟨answer, after, left⟩
  rcases htwo : processor.reset bus'.reset with ⟨answer', after', left'⟩
  rw [hone, htwo] at hanswer hafter hmemory
  obtain rfl : answer = answer' := hanswer
  cases answer <;> exact ⟨rfl, hafter, hmemory⟩

theorem tick (hsame : console.SameButTitle other) :
    console.tick.1 = other.tick.1 ∧ console.tick.2.SameButTitle other.tick.2 := by
  obtain ⟨processor, bus⟩ := console
  obtain ⟨processor', bus'⟩ := other
  obtain ⟨hprocessor, hbus⟩ := hsame
  obtain rfl : processor = processor' := hprocessor
  obtain ⟨hanswer, hafter, -, hmemory⟩ :=
    Processor.sameOutcome_tick Bus.lockstep_untitled processor trivial hbus
  simp only [Console.tick]
  rcases hone : processor.tick bus with ⟨answer, after, left⟩
  rcases htwo : processor.tick bus' with ⟨answer', after', left'⟩
  rw [hone, htwo] at hanswer hafter hmemory
  obtain rfl : answer = answer' := hanswer
  have huntitled : left.untitled = left'.untitled := hmemory
  have hpause : left.pause = left'.pause := (congrArg Bus.pause huntitled :)
  have hleft : { left with pause := 0 }.untitled = { left' with pause := 0 }.untitled :=
    congrArg (fun bus => { bus with pause := 0 }) huntitled
  cases answer with
  | error error => exact ⟨rfl, hafter, hmemory⟩
  | ok cycles =>
      refine ⟨?_, hafter, hleft⟩
      simp only [afterProcessor, Bus.takePause, hpause]

theorem insert (hsame : console.SameButTitle other) (cartridge : Cartridge) :
    (console.insert cartridge).1 = (other.insert cartridge).1 ∧
      (console.insert cartridge).2.SameButTitle (other.insert cartridge).2 :=
  SameButTitle.reset
    ⟨hsame.processor, congrArg (fun bus => (bus.insert cartridge).untitled) hsame.bus⟩

theorem apply (hsame : console.SameButTitle other) (command : Command) :
    (command.apply console).1 = (command.apply other).1 ∧
      (command.apply console).2.SameButTitle (command.apply other).2 := by
  cases command with
  | load data =>
      simp only [Command.apply, Console.load]
      cases Cartridge.ofBytes data with
      | error error => exact ⟨rfl, hsame⟩
      | ok cartridge =>
          obtain ⟨hanswer, hafter⟩ := hsame.insert cartridge
          exact ⟨congrArg (Except.map fun _ => none) hanswer, hafter⟩
  | insert cartridge =>
      obtain ⟨hanswer, hafter⟩ := hsame.insert cartridge
      exact ⟨congrArg (Except.map fun _ => none) hanswer, hafter⟩
  | reset =>
      obtain ⟨hanswer, hafter⟩ := hsame.reset
      exact ⟨congrArg (Except.map fun _ => none) hanswer, hafter⟩
  | tick =>
      obtain ⟨hanswer, hafter⟩ := hsame.tick
      exact ⟨congrArg (Except.map some) hanswer, hafter⟩
  | verticalBlank =>
      have hflag : { console.bus with io := console.bus.io.raiseNmiFlag }.untitled =
          { other.bus with io := other.bus.io.raiseNmiFlag }.untitled :=
        congrArg (fun bus => { bus with io := bus.io.raiseNmiFlag }) hsame.bus
      have henabled : console.bus.io.raiseNmiFlag.nmiEnabled =
          other.bus.io.raiseNmiFlag.nmiEnabled :=
        congrArg (fun bus => bus.io.raiseNmiFlag.nmiEnabled) hsame.bus
      refine ⟨rfl, ?_⟩
      simp only [Command.apply, Console.verticalBlank, henabled, hsame.processor]
      split <;> exact ⟨rfl, hflag⟩
  | raiseIrq =>
      exact ⟨rfl, congrArg (fun processor => processor.request .irq) hsame.processor, hsame.bus⟩

-- Nothing that can be seen of any run tells them apart.
theorem observe (hsame : console.SameButTitle other) (commands : List Command) :
    observe console commands = observe other commands := by
  induction commands generalizing console other with
  | nil => rfl
  | cons command rest ih =>
      obtain ⟨hanswer, hafter⟩ := hsame.apply command
      simp only [Console.observe, hanswer, hafter.saveState, ih hafter]

end SameButTitle

-- Consoles into which states can be carried over. Their titles may differ.
structure SameHardware (console other : Console) : Prop where
  opcodes : other.processor.opcodes = console.processor.opcodes
  cartridge : other.bus.cartridge.map Cartridge.hardware =
    console.bus.cartridge.map Cartridge.hardware

section Restored

variable {inserted : Option Cartridge.Hardware} {console other : Console}

theorem loadState_of_sameHardware (hsound : console.Sound inserted true)
    (hsame : console.SameHardware other) :
    (other.loadState console.saveState).1 = .ok () ∧
      (other.loadState console.saveState).2.SameButTitle console := by
  obtain ⟨cartridge, hwith, huntitled⟩ := Bus.cartridgeWith_of_hardware hsame.cartridge
  have hload : other.bus.loadState console.bus.saveState = (.ok (), _) :=
    Bus.loadState_of_sizes hsound.bus.workRam hsound.bus.bRegisters hwith
  have hpause := hsound.pause rfl
  simp only [loadState, saveState, hload]
  refine ⟨trivial, ?_, ?_⟩
  · simp only [Processor.loadState, Processor.saveState, hsame.opcodes]
  · simp only [Bus.untitled, Bus.saveState, huntitled, hpause]

-- A state that goes back to where it was taken changes nothing.
theorem loadState_saveState (hsound : console.Sound inserted true) :
    console.loadState console.saveState = (.ok (), console) := by
  have hload : console.bus.loadState console.bus.saveState = (.ok (), _) :=
    Bus.loadState_of_sizes hsound.bus.workRam hsound.bus.bRegisters
      (Bus.cartridgeWith_self console.bus.cartridge)
  have hpause : { console.bus with pause := 0 } = console.bus := by
    rw [← hsound.pause rfl]
  simp only [loadState, saveState, hload]
  exact congrArg (fun bus => (Except.ok (), Console.mk console.processor bus)) hpause

end Restored

-- Runs in which some states are saved and loaded again at once. Those are the steps without a
-- command, and nothing is seen of them.
def observeTrips (console : Console) :
    List (Option Command) → List (Except ConsoleError (Option UInt32) × ConsoleState)
  | [] => []
  | none :: rest => observeTrips (console.loadState console.saveState).2 rest
  | some command :: rest =>
    let (answer, after) := command.apply console
    (answer, after.saveState) :: observeTrips after rest

-- No state is saved after a tick that failed.
def TripsSettled (console : Console) (settled : Bool) : List (Option Command) → Prop
  | [] => True
  | none :: rest => settled = true ∧ TripsSettled console settled rest
  | some command :: rest =>
    TripsSettled (command.apply console).2 (command.settles console settled) rest

theorem observeTrips_eq_observe {inserted : Option Cartridge.Hardware} {settled : Bool}
    {console : Console} (hsound : console.Sound inserted settled) (steps : List (Option Command))
    (htrips : TripsSettled console settled steps) :
    observeTrips console steps = observe console (steps.filterMap id) := by
  induction steps generalizing console inserted settled with
  | nil => rfl
  | cons step rest ih =>
      cases step with
      | none =>
          obtain ⟨rfl, hrest⟩ := htrips
          rw [observeTrips, loadState_saveState hsound]
          exact ih hsound hrest
      | some command =>
          have hrest := ih (hsound.apply command) htrips
          exact congrArg
            (((command.apply console).1, (command.apply console).2.saveState) :: ·) hrest

-- A state that is saved when no error of a tick is outstanding carries everything over. Whichever
-- console with the same hardware it is loaded into, nothing later tells the two apart, and saving
-- and loading on the way makes no difference.
theorem saveState_transparent (history : List Command)
    (hsettled : settlesAfter powerOn true history = true) (other : Console)
    (hsame : (run powerOn history).SameHardware other) :
    let console := run powerOn history
    let restored := other.loadState console.saveState
    restored.1 = .ok () ∧
      (∀ future, observe restored.2 future = observe console future) ∧
      ∀ future, TripsSettled console true future →
        observeTrips console future = observe console (future.filterMap id) := by
  have hsound := sound_powerOn.run history
  rw [hsettled] at hsound
  obtain ⟨hanswer, hrestored⟩ := loadState_of_sameHardware hsound hsame
  exact ⟨hanswer, hrestored.observe, observeTrips_eq_observe hsound⟩

-- A cartridge without SRAM, full of NOPs.
def nops (title : String) : Cartridge where
  rom := ⟨⟨⟨Array.replicate 0x400 0xEA⟩⟩, by simp [ByteArray.size], by simp [ByteArray.size]⟩
  sram := zeroBytes 0
  mapping := .loRom
  title

-- The state after the first NOP goes into a console that has another title and an IRQ pending.
theorem saveState_transparent_nops :
    let console := run powerOn [.insert (nops "first"), .tick]
    let other := run powerOn [.insert (nops "second"), .raiseIrq]
    settlesAfter powerOn true [.insert (nops "first"), .tick] = true ∧
      console.SameHardware other ∧
      ∀ future, observe (other.loadState console.saveState).2 future = observe console future := by
  have hsettled : settlesAfter powerOn true [.insert (nops "first"), .tick] = true := by
    decide +kernel
  have hfirst := sound_powerOn.run [.insert (nops "first"), .tick]
  have hsecond := sound_powerOn.run [.insert (nops "second"), .raiseIrq]
  have hsame : (run powerOn [.insert (nops "first"), .tick]).SameHardware
      (run powerOn [.insert (nops "second"), .raiseIrq]) :=
    ⟨hsecond.opcodes.trans hfirst.opcodes.symm,
      hsecond.bus.cartridge.trans hfirst.bus.cartridge.symm⟩
  exact ⟨hsettled, hsame, (saveState_transparent _ hsettled _ hsame).2.1⟩

end Console

end Console816
