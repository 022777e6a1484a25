import Console816.Proofs.Bus.Misfit
import Console816.Proofs.Console.SaveState

namespace Console816

namespace Cartridge

-- The hardware and the SRAM are all of a cartridge but its title.
theorem map_untitled_of_hardware {cartridge other : Option Cartridge}
    (hhardware : other.map hardware = cartridge.map hardware)
    (hsram : other.map (·.sram) = cartridge.map (·.sram)) :
    cartridge.map untitled = other.map untitled := by
  cases cartridge with
  | none => rw [Option.map_eq_none_iff.mp hhardware]
  | some cartridge =>
      obtain ⟨other, rfl, hone⟩ := Option.map_eq_some_iff.mp hhardware
      have hrom : other.rom = cartridge.rom := congrArg Hardware.rom hone
      have hmapping : other.mapping = cartridge.mapping := congrArg Hardware.mapping hone
      have hbytes : other.sram = cartridge.sram := Option.some.inj hsram
      simp only [Option.map_some, untitled, hrom, hmapping, hbytes]

end Cartridge

namespace Bus

-- Where nothing is wrong, what comes out is the state, or the SRAM that was there if the state
-- brings none.
theorem sram_restored {bus : Bus} {state : BusState} (hfits : Misfit.first? bus state = none) :
    (bus.restored state).map (·.sram) = state.sram.or (bus.cartridge.map (·.sram)) := by
  have hclaimed : ¬Misfit.unclaimedSram.Found bus state := Misfit.first?_eq_none_iff.mp hfits _
  simp only [Misfit.Found, not_and, Bool.not_eq_true, Option.isNone_eq_false_iff] at hclaimed
  unfold restored
  cases hcartridge : bus.cartridge with
  | none =>
      cases hsram : state.sram with
      | none => rfl
      | some data =>
          rw [hsram, hcartridge] at hclaimed
          cases hclaimed rfl
  | some cartridge => cases state.sram <;> rfl

theorem hardware_restored {bus : Bus} {state : BusState} (hfits : Misfit.first? bus state = none) :
    (bus.restored state).map Cartridge.hardware = bus.cartridge.map Cartridge.hardware := by
  have hfound := Misfit.first?_eq_none_iff.mp hfits
  apply hardware_cartridgeWith
  rw [cartridgeWith_eq, if_neg (hfound _), if_neg (hfound _)]

end Bus

namespace Console

variable {console other : Console} {state : ConsoleState}

theorem loadState_of_misfit {misfit : Misfit}
    (hfirst : Misfit.first? console.bus state.bus = some misfit) :
    console.loadState state = (.error (.state (misfit.error console.bus state.bus)), console) := by
  simp only [loadState, Bus.loadState_eq, hfirst]

theorem loadState_of_fits (hfits : Misfit.first? console.bus state.bus = none) :
    console.loadState state =
      (.ok (),
        ⟨console.processor.loadState state.processor,
          ⟨state.bus.workRam, state.bus.io, state.bus.bRegisters, console.bus.restored state.bus,
            state.bus.latch, 0⟩⟩) := by
  simp only [loadState, Bus.loadState_eq, hfits]

theorem loadState_ok_iff :
    (console.loadState state).1 = .ok () ↔ Misfit.first? console.bus state.bus = none := by
  cases hfirst : Misfit.first? console.bus state.bus with
  | none => simp only [loadState_of_fits hfirst]
  | some misfit => simp only [loadState_of_misfit hfirst, reduceCtorEq]

-- A state is refused for the first thing about it that does not fit, for nothing else, and without
-- a trace of it.
theorem loadState_refused_iff (console : Console) (state : ConsoleState) :
    (∀ error after, console.loadState state = (.error error, after) ↔
        after = console ∧ ∃ misfit, Misfit.first? console.bus state.bus = some misfit ∧
          error = .state (misfit.error console.bus state.bus)) ∧
      ((∃ error, (console.loadState state).1 = .error error) ↔
        ∃ misfit : Misfit, misfit.Found console.bus state.bus) := by
  cases hfirst : Misfit.first? console.bus state.bus with
  | none =>
      have hfound := Misfit.first?_eq_none_iff.mp hfirst
      rw [loadState_of_fits hfirst]
      simp [hfound]
  | some misfit =>
      have hfound : misfit.Found console.bus state.bus := by
        simpa only [decide_eq_true_eq] using List.find?_some hfirst
      rw [loadState_of_misfit hfirst]
      refine ⟨fun error after => ?_, fun _ => ⟨misfit, hfound⟩, fun _ => ⟨_, rfl⟩⟩
      simp [eq_comm, and_comm]

-- Consoles with the same hardware and the same state differ in their titles at most.
theorem SameHardware.sameButTitle (hsame : console.SameHardware other)
    (hsaved : console.saveState = other.saveState) (hpause : console.bus.pause = other.bus.pause) :
    console.SameButTitle other := by
  obtain ⟨⟨registers, interrupts, opcodes, cycles⟩, bus⟩ := console
  obtain ⟨⟨registers', interrupts', opcodes', cycles'⟩, otherBus⟩ := other
  obtain ⟨hopcodes, hhardware⟩ := hsame
  simp only [saveState, Processor.saveState, Bus.saveState, ConsoleState.mk.injEq,
    ProcessorState.mk.injEq, BusState.mk.injEq] at hsaved hopcodes hhardware hpause
  obtain ⟨⟨rfl, rfl, rfl⟩, hlatch, hram, hio, hregisters, hsram⟩ := hsaved
  have huntitled := Cartridge.map_untitled_of_hardware hhardware hsram.symm
  refine ⟨by rw [hopcodes], ?_⟩
  simp only [Bus.untitled, hlatch, hram, hio, hregisters, huntitled, hpause]

-- What a state becomes once it is loaded: itself, but that the SRAM of the cartridge stays where
-- the state brings none.
theorem loaded_of_ok (hok : (console.loadState state).1 = .ok ()) :
    let loaded := (console.loadState state).2
    console.SameHardware loaded ∧ loaded.bus.pause = 0 ∧
      loaded.saveState =
        { state with bus.sram := state.bus.sram.or console.bus.saveState.sram } := by
  have hfits := loadState_ok_iff.mp hok
  rw [loadState_of_fits hfits]
  refine ⟨⟨rfl, Bus.hardware_restored hfits⟩, rfl, ?_⟩
  simp only [saveState, Bus.saveState, Bus.sram_restored hfits]
  rfl

-- A state that is accepted is the whole state from then on exactly where it brings SRAM for the
-- cartridge there is. Consoles with the same hardware that accept it are then in the same state and
-- stay so, whatever they held before. Without SRAM in the state, what theirs held before decides.
theorem saveState_eq_iff_of_loaded (hok : (console.loadState state).1 = .ok ()) :
    let loaded := (console.loadState state).2
    loaded.saveState =
        { state with bus.sram := state.bus.sram.or console.bus.saveState.sram } ∧
      (loaded.saveState = state ↔ (console.bus.cartridge.isSome → state.bus.sram.isSome)) ∧
      ∀ other, console.SameHardware other → (other.loadState state).1 = .ok () →
        (loaded.saveState = (other.loadState state).2.saveState ↔
            state.bus.sram.isSome ∨ console.bus.saveState.sram = other.bus.saveState.sram) ∧
          (loaded.saveState = (other.loadState state).2.saveState →
            ∀ future, observe loaded future = observe (other.loadState state).2 future) := by
  obtain ⟨hhardware, hpause, hsaved⟩ := loaded_of_ok hok
  -- only the SRAM can be told apart
  have hbrings (sram sram' : Option ByteArray) :
      ({ state with bus.sram := sram } : ConsoleState) = { state with bus.sram := sram' } ↔
        sram = sram' :=
    ⟨fun heq => congrArg (·.bus.sram) heq, fun heq => by rw [heq]⟩
  refine ⟨hsaved, ?_, fun other hsame hother => ?_⟩
  · have hheld : console.bus.saveState.sram.isSome = console.bus.cartridge.isSome :=
      Option.isSome_map
    rw [hsaved, ← hheld]
    refine (hbrings _ state.bus.sram).trans ?_
    cases state.bus.sram <;> cases console.bus.saveState.sram <;> simp
  · obtain ⟨hhardware', hpause', hsaved'⟩ := loaded_of_ok hother
    refine ⟨?_, fun heq => ?_⟩
    · rw [hsaved, hsaved', hbrings]
      cases state.bus.sram <;> simp
    · have hboth : SameHardware (console.loadState state).2 (other.loadState state).2 :=
        ⟨hhardware'.opcodes.trans (hsame.opcodes.trans hhardware.opcodes.symm),
          hhardware'.cartridge.trans (hsame.cartridge.trans hhardware.cartridge.symm)⟩
      exact (hboth.sameButTitle heq (hpause.trans hpause'.symm)).observe

-- The console after a cartridge with 2 KiB of SRAM was put in.
def batteryBacked : Console :=
  run powerOn [.insert (.withMapping (nops "").rom .loRom 0x800)]

-- A state from before the cartridge was put in is accepted, and is not what the console holds then.
theorem not_whole_of_sramless :
    (batteryBacked.loadState powerOn.saveState).1 = .ok () ∧
      (batteryBacked.loadState powerOn.saveState).2.saveState ≠ powerOn.saveState := by
  have hok : (batteryBacked.loadState powerOn.saveState).1 = .ok () := by
    refine loadState_ok_iff.mpr (Misfit.first?_eq_none_iff.mpr fun misfit => ?_)
    cases misfit with
    | workRam => exact not_not_intro (size_zeroBytes _)
    | bRegisters => exact not_not_intro (size_zeroBytes _)
    | unclaimedSram | sram => exact fun hfound => nomatch hfound.1
  have hcartridge : batteryBacked.bus.cartridge.isSome := by
    have hsound := sound_powerOn.run [.insert (.withMapping (nops "").rom .loRom 0x800)]
    exact Option.isSome_map.symm.trans (congrArg Option.isSome hsound.bus.cartridge)
  refine ⟨hok, fun hwhole => ?_⟩
  have hbrings := (saveState_eq_iff_of_loaded hok).2.1.mp hwhole hcartridge
  cases hbrings

end Console

end Console816
