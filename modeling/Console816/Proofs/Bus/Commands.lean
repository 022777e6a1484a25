import Console816.Proofs.Bus.State

namespace Console816.Bus

-- What can be done to a bus from outside.
inductive Command where
  | insert (cartridge : Cartridge)
  | reset
  | read (address : Address)
  | write (address : Address) (value : UInt8)
  | takePause
  | loadState (state : BusState)

namespace Command

-- What a command leaves behind, whether it fails or not.
def apply (bus : Bus) : Command → Bus
  | insert cartridge => bus.insert cartridge
  | reset => bus.reset
  | read address => (bus.read address).2
  | write address value => (bus.write address value).2
  | takePause => bus.takePause.2
  | loadState state => (bus.loadState state).2

-- The cartridge that is in after the command.
def inserted (current : Option Cartridge.Hardware) : Command → Option Cartridge.Hardware
  | insert cartridge => some cartridge.hardware
  | _ => current

-- A state that the bus accepts brings a cursor that fits.
def CursorFits (fits : UInt32 → Prop) (bus : Bus) : Command → Prop
  | loadState state => (bus.loadState state).1 = .ok () → fits state.workRam.cursor
  | _ => True

end Command

def run (bus : Bus) : List Command → Bus
  | [] => bus
  | command :: rest => run (command.apply bus) rest

def inserted (current : Option Cartridge.Hardware) : List Command → Option Cartridge.Hardware
  | [] => current
  | command :: rest => inserted (command.inserted current) rest

-- All states that are accepted on the way bring cursors that fit.
def CursorsFit (fits : UInt32 → Prop) (bus : Bus) : List Command → Prop
  | [] => True
  | command :: rest => command.CursorFits fits bus ∧ CursorsFit fits (command.apply bus) rest

-- No access leaves the memory it is made to. The ROM carries its own proof.
structure IndicesFit (bus : Bus) : Prop where
  workRam : ∀ index, index % WorkRam.size < bus.workRam.data.size
  bRegister : ∀ register : UInt8, register.toNat < bus.bRegisters.size
  sram : ∀ cartridge ∈ bus.cartridge, ∀ index cell,
    cartridge.sramIndex? index = some cell → cell < cartridge.sram.size

theorem Sized.indicesFit {inserted : Option Cartridge.Hardware} {bus : Bus}
    (hsized : bus.Sized inserted) : bus.IndicesFit where
  workRam index := by
    rw [hsized.workRam]
    exact Nat.mod_lt _ (by decide)
  bRegister register := by
    rw [hsized.bRegisters]
    exact register.toNat_lt
  sram cartridge _ index cell hcell := by
    unfold Cartridge.sramIndex? at hcell
    split at hcell
    · cases hcell
    · rename_i hne
      obtain rfl := Option.some.inj hcell
      exact Nat.mod_lt _ (Nat.pos_of_ne_zero hne)

theorem sized_apply (command : Command) {current : Option Cartridge.Hardware} {bus : Bus}
    (hsized : bus.Sized current) : (command.apply bus).Sized (command.inserted current) := by
  cases command with
  | insert cartridge => exact hsized.insert cartridge
  | reset => exact hsized.reset
  | read address => exact hsized.steady (bus.steady_read address)
  | write address value => exact hsized.steady (bus.steady_write address value)
  | takePause => exact ⟨hsized.workRam, hsized.bRegisters, hsized.cartridge⟩
  | loadState state =>
      simp only [Command.apply]
      rcases bus.loadState_cases state with ⟨error, hload⟩ | ⟨cartridge, hwith, hram, hb, hload⟩
      · rw [hload]
        exact hsized
      · rw [hload]
        exact ⟨hram, hb, (hardware_cartridgeWith hwith).trans hsized.cartridge⟩

theorem sized_run (commands : List Command) {current : Option Cartridge.Hardware} {bus : Bus}
    (hsized : bus.Sized current) : (run bus commands).Sized (inserted current commands) := by
  induction commands generalizing bus current with
  | nil => exact hsized
  | cons command rest ih => exact ih (sized_apply command hsized)

-- What becomes of a bus, in a console or out of it. All that a processor does to it is to read and
-- to write.
inductive Reachable : Bus → Prop
  | powerOn : Reachable powerOn
  | apply {bus : Bus} (command : Command) (hbus : Reachable bus) : Reachable (command.apply bus)
  | verticalBlank {bus : Bus} (hbus : Reachable bus) :
      Reachable { bus with io := bus.io.raiseNmiFlag }

theorem Reachable.run {bus : Bus} (hbus : bus.Reachable) (commands : List Command) :
    (run bus commands).Reachable := by
  induction commands generalizing bus with
  | nil => exact hbus
  | cons command rest ih => exact ih (hbus.apply command)

theorem Reachable.sized {bus : Bus} (hbus : bus.Reachable) : ∃ inserted, bus.Sized inserted := by
  induction hbus with
  | powerOn => exact ⟨none, sized_powerOn⟩
  | apply command _ ih =>
      obtain ⟨inserted, hsized⟩ := ih
      exact ⟨_, sized_apply command hsized⟩
  | verticalBlank _ ih =>
      obtain ⟨inserted, hsized⟩ := ih
      exact ⟨inserted, hsized.workRam, hsized.bRegisters, hsized.cartridge⟩

-- The cursor is as far out of range as a state that was accepted.
section Cursor

variable {fits : UInt32 → Prop} {bus : Bus}

theorem fits_apply (hrange : ∀ cursor < 0x20000, fits cursor) {command : Command}
    (hcommand : command.CursorFits fits bus) (hbus : fits bus.workRam.cursor) :
    fits (command.apply bus).workRam.cursor := by
  have hsteady {after : Bus} (hafter : Steady bus after) : fits after.workRam.cursor := by
    rcases hafter.cursor with hsame | hlt
    · exact hsame ▸ hbus
    · exact hrange _ hlt
  cases command with
  | insert | reset | takePause => exact hbus
  | read address => exact hsteady (bus.steady_read address)
  | write address value => exact hsteady (bus.steady_write address value)
  | loadState state =>
      simp only [Command.apply, Command.CursorFits] at hcommand ⊢
      rcases bus.loadState_cases state with ⟨error, hload⟩ | ⟨cartridge, -, -, -, hload⟩
      · rw [hload]
        exact hbus
      · rw [hload] at hcommand ⊢
        exact hcommand rfl

theorem cursorFits_of_fits {command : Command} (hafter : fits (command.apply bus).workRam.cursor) :
    command.CursorFits fits bus := by
  cases command with
  | insert | reset | takePause | read | write => trivial
  | loadState state =>
      intro hok
      simp only [Command.apply] at hafter
      rcases bus.loadState_cases state with ⟨error, hload⟩ | ⟨cartridge, -, -, -, hload⟩
      · rw [hload] at hok
        cases hok
      · rw [hload] at hafter
        exact hafter

theorem cursorsFit_iff (hrange : ∀ cursor < 0x20000, fits cursor) (commands : List Command)
    (hbus : fits bus.workRam.cursor) :
    (∀ done, done <+: commands → fits (run bus done).workRam.cursor) ↔
      CursorsFit fits bus commands := by
  induction commands generalizing bus with
  | nil =>
      refine ⟨fun _ => trivial, fun _ done hdone => ?_⟩
      rw [List.prefix_nil.mp hdone]
      exact hbus
  | cons command rest ih =>
      constructor
      · intro hall
        have hnext : fits (command.apply bus).workRam.cursor :=
          hall [command] (List.prefix_append [command] rest)
        refine ⟨cursorFits_of_fits hnext, (ih hnext).mp fun done hdone => ?_⟩
        exact hall (command :: done) ((List.prefix_cons_inj command).mpr hdone)
      · rintro ⟨hcommand, hrest⟩ done hdone
        have hnext := fits_apply hrange hcommand hbus
        rcases List.prefix_cons_iff.mp hdone with rfl | ⟨later, rfl, hlater⟩
        · exact hbus
        · exact (ih hnext).mpr hrest later hlater

end Cursor

-- Every memory keeps its size through every run from power-on. The cursor stays in range, and can
-- be counted up, for as long as no state is accepted whose cursor is out of range or cannot.
theorem sized_run_and_cursor_iff (commands : List Command) :
    (∀ done, done <+: commands →
        (run powerOn done).Sized (inserted none done) ∧ (run powerOn done).IndicesFit) ∧
      ((∀ done, done <+: commands → (run powerOn done).workRam.cursor < 0x20000) ↔
        CursorsFit (· < 0x20000) powerOn commands) ∧
      ((∀ done, done <+: commands → (run powerOn done).workRam.cursor.toNat + 1 < UInt32.size) ↔
        CursorsFit (fun cursor => cursor.toNat + 1 < UInt32.size) powerOn commands) := by
  have hcount (cursor : UInt32) (hlt : cursor < 0x20000) : cursor.toNat + 1 < UInt32.size := by
    simp only [UInt32.lt_iff_toNat_lt, UInt32.reduceToNat] at hlt
    simp only [UInt32.size]
    omega
  have hsized (done : List Command) := sized_run done sized_powerOn
  refine ⟨fun done _ => ⟨hsized done, (hsized done).indicesFit⟩, ?_, ?_⟩
  · exact cursorsFit_iff (fun _ hlt => hlt) commands (by decide)
  · exact cursorsFit_iff hcount commands (by decide)

-- The state of power-on with the cursor one past the end of the work RAM.
def strayState : BusState := { powerOn.saveState with workRam := ⟨zeroBytes WorkRam.size, 0x20000⟩ }

theorem loadState_strayState : (powerOn.loadState strayState).1 = .ok () := by
  have hload : powerOn.loadState strayState = (.ok (), _) :=
    loadState_of_sizes (size_zeroBytes _) (size_zeroBytes _) rfl
  rw [hload]

theorem cursor_stray_of_loadState :
    ¬∀ done, done <+: [.loadState strayState] → (run powerOn done).workRam.cursor < 0x20000 := by
  intro hall
  have hfits := (sized_run_and_cursor_iff [.loadState strayState]).2.1.mp hall
  have hlt : (0x20000 : UInt32) < 0x20000 := hfits.1 loadState_strayState
  exact absurd hlt (by decide)

end Console816.Bus
