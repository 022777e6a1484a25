import Console816.Proofs.Console.Commands
import Console816.Proofs.Console.Reset

namespace Console816.Console

open DmaChannel

-- The channels that run to their ends during the next tick.
def transfers (console : Console) : List DmaChannel :=
  (console.processor.tick (⟨console.bus, []⟩ : Bus.Metered)).2.2.completed

-- The channels that have run but that no tick has answered for. A tick that fails leaves its own
-- behind, the next one that succeeds answers for all of them, and a reset forgets them.
def Command.uncharged (console : Console) (left : List DmaChannel) : Command → List DmaChannel
  | tick => if console.tick.1.isOk then [] else left ++ console.transfers
  | reset | insert _ => []
  | load data =>
    match Cartridge.ofBytes data with
    | .ok _ => []
    | .error _ => left
  | verticalBlank | raiseIrq => left

def uncharged (console : Console) (left : List DmaChannel) : List Command → List DmaChannel
  | [] => left
  | command :: rest =>
    uncharged (command.apply console).2 (command.uncharged console left) rest

theorem pause_processor (console : Console) :
    (console.processor.tick console.bus).2.2.pause =
      console.bus.pause + (charges console.transfers).toUInt32 := by
  have hstart : Bus.Metered.Counts console.bus ⟨console.bus, []⟩ console.bus :=
    ⟨rfl, (UInt32.add_zero _).symm⟩
  exact (Processor.sameOutcome_tick (Bus.lockstep_metered console.bus) console.processor trivial
    hstart).memory.pause

-- A tick that succeeds answers for all that has paused the processor, one that fails for nothing.

theorem tick_of_ok {console : Console} {own : Nat}
    (hown : (console.processor.tick console.bus).1 = .ok own) :
    console.tick.1 =
        .ok (own.toUInt32 + (console.bus.pause + (charges console.transfers).toUInt32)) ∧
      console.tick.2.bus.pause = 0 := by
  have hpause := console.pause_processor
  obtain ⟨processor, bus⟩ := console
  dsimp only at hown hpause
  simp only [tick]
  rcases htick : processor.tick bus with ⟨answer, after, left⟩
  rw [htick] at hown hpause
  obtain rfl : answer = .ok own := hown
  rw [← hpause]
  exact ⟨rfl, rfl⟩

theorem tick_of_error {console : Console} {error : ProcessorError}
    (hown : (console.processor.tick console.bus).1 = .error error) :
    console.tick.1 = .error (.processor error) ∧
      console.tick.2.bus.pause =
        console.bus.pause + (charges console.transfers).toUInt32 := by
  have hpause := console.pause_processor
  obtain ⟨processor, bus⟩ := console
  dsimp only at hown hpause
  simp only [tick]
  rcases htick : processor.tick bus with ⟨answer, after, left⟩
  rw [htick] at hown hpause
  obtain rfl : answer = .error error := hown
  exact ⟨rfl, hpause⟩

theorem tick_ok_iff (console : Console) (count : UInt32) :
    console.tick.1 = .ok count ↔
      ∃ own, (console.processor.tick console.bus).1 = .ok own ∧
        count = own.toUInt32 + (console.bus.pause + (charges console.transfers).toUInt32) := by
  cases hown : (console.processor.tick console.bus).1 with
  | ok own =>
      rw [(tick_of_ok hown).1]
      constructor
      · exact fun hcount => ⟨own, rfl, (Except.ok.inj hcount).symm⟩
      · rintro ⟨_, hsame, rfl⟩
        cases hsame
        rfl
  | error error =>
      rw [(tick_of_error hown).1]
      constructor
      · exact fun hcount => nomatch hcount
      · exact fun ⟨_, hsame, _⟩ => nomatch hsame

theorem pause_reset (console : Console) : console.reset.2.bus.pause = 0 := by
  rw [reset_eq]
  rfl

-- What pauses the processor between two commands are the channels that no tick has answered for.
theorem pause_apply (command : Command) {console : Console} {left : List DmaChannel}
    (hpause : console.bus.pause = (charges left).toUInt32) :
    (command.apply console).2.bus.pause =
      (charges (command.uncharged console left)).toUInt32 := by
  cases command with
  | load data =>
      simp only [Command.apply, Command.uncharged, load]
      cases Cartridge.ofBytes data with
      | error error => exact hpause
      | ok cartridge => exact pause_reset _
  | insert cartridge => exact pause_reset _
  | reset => exact pause_reset console
  | tick =>
      simp only [Command.apply, Command.uncharged]
      cases hown : (console.processor.tick console.bus).1 with
      | ok own =>
          obtain ⟨hanswer, hafter⟩ := tick_of_ok hown
          rw [hanswer]
          exact hafter
      | error error =>
          obtain ⟨hanswer, hafter⟩ := tick_of_error hown
          rw [hanswer, hafter, hpause]
          exact (toUInt32_charges_append ..).symm
  | verticalBlank =>
      simp only [Command.apply, Command.uncharged, verticalBlank]
      split <;> exact hpause
  | raiseIrq => exact hpause

theorem pause_run {console : Console} {left : List DmaChannel}
    (hpause : console.bus.pause = (charges left).toUInt32) (commands : List Command) :
    (run console commands).bus.pause = (charges (uncharged console left commands)).toUInt32 := by
  induction commands generalizing console left with
  | nil => exact hpause
  | cons command rest ih => exact ih (pause_apply command hpause)

-- Only a tick that fails leaves channels behind.

theorem uncharged_of_settles {console : Console} {settled : Bool} {left : List DmaChannel}
    (hnone : settled = true → left = []) (command : Command)
    (hsettles : command.settles console settled = true) :
    command.uncharged console left = [] := by
  cases command with
  | load data =>
      simp only [Command.uncharged]
      split
      · rfl
      · exact hnone hsettles
  | insert | reset => rfl
  | tick => exact if_pos hsettles
  | verticalBlank | raiseIrq => exact hnone hsettles

theorem uncharged_of_settlesAfter {console : Console} {settled : Bool} {left : List DmaChannel}
    (hnone : settled = true → left = []) {commands : List Command}
    (hsettled : settlesAfter console settled commands = true) :
    uncharged console left commands = [] := by
  induction commands generalizing console settled left with
  | nil => exact hnone hsettled
  | cons command rest ih => exact ih (uncharged_of_settles hnone command) hsettled

-- A tick that succeeds answers for the channels that ran to their ends in it, and for those that
-- ticks before it left behind when they failed. Cycles are counted in 32 bits.
theorem transfers_charged (commands : List Command) :
    let console := run powerOn commands
    let left := uncharged powerOn [] commands
    (∀ count, console.tick.1 = .ok count ↔
      ∃ own, (console.processor.tick console.bus).1 = .ok own ∧
        count.toNat = (own + charges console.transfers + charges left) % 0x100000000) ∧
    (charges left = 0 ↔ left = []) ∧
    (settlesAfter powerOn true commands = true → left = []) ∧
    (console.tick.1.isOk = true → console.tick.2.bus.pause = 0) := by
  intro console left
  have hpause : console.bus.pause = (charges left).toUInt32 := pause_run rfl commands
  refine ⟨fun count => ?_, charges_eq_zero, uncharged_of_settlesAfter fun _ => rfl, fun hok => ?_⟩
  · have hcount (own : Nat) :
        count = own.toUInt32 + (console.bus.pause + (charges console.transfers).toUInt32) ↔
          count.toNat = (own + charges console.transfers + charges left) % 0x100000000 := by
      rw [hpause, ← UInt32.toNat_inj]
      simp only [UInt32.toNat_add, UInt32.toNat_ofNat', Nat.toUInt32_eq]
      omega
    simp only [tick_ok_iff, hcount]
  · cases hown : (console.processor.tick console.bus).1 with
    | ok own => exact (tick_of_ok hown).2
    | error error =>
        rw [(tick_of_error hown).1] at hok
        cases hok

-- A program that starts two channels of a byte each, one on ROM and one where nothing is mapped.
def startsTwo : Cartridge :=
  let code : List UInt8 :=
    [0xA9, 0x80, 0x8D, 0x03, 0x43, 0xA9, 0x01, 0x8D, 0x05, 0x43, 0x8D, 0x15, 0x43, 0xA9, 0x70, 0x8D,
      0x14, 0x43, 0xA9, 0x03, 0x8D, 0x0B, 0x42, 0xEA]
  let bytes := code ++ List.replicate 0x3E4 0 ++ [0x00, 0x80, 0x00, 0x00]
  .withMapping ⟨⟨⟨bytes.toArray⟩⟩, by decide +kernel, by decide +kernel⟩ .loRom 0

def startedTwo : List Command := .insert startsTwo :: List.replicate 9 .tick

-- The tick that starts the channels fails in the second. The next one has none, but answers for the
-- first as well.
theorem transfers_charged_afterFailure :
    uncharged powerOn [] [.insert startsTwo] = [] ∧
      charges (uncharged powerOn [] startedTwo) = 2 ∧
      (run powerOn startedTwo).transfers = [] ∧
      ((run powerOn startedTwo).processor.tick (run powerOn startedTwo).bus).1.toOption = some 2 ∧
      (run powerOn startedTwo).tick.1.toOption = some 4 ∧
      (run powerOn startedTwo).tick.2.bus.pause = 0 := by
  have hrun : charges (uncharged powerOn [] startedTwo) = 2 ∧
      (run powerOn startedTwo).transfers = [] ∧
      ((run powerOn startedTwo).processor.tick (run powerOn startedTwo).bus).1.toOption = some 2 ∧
      (run powerOn startedTwo).tick.1.toOption = some 4 ∧
      (run powerOn startedTwo).tick.1.isOk = true := by
    decide +kernel
  obtain ⟨hleft, htransfers, hown, hanswer, hok⟩ := hrun
  exact ⟨(transfers_charged [.insert startsTwo]).2.2.1 (by decide +kernel), hleft, htransfers, hown,
    hanswer, (transfers_charged startedTwo).2.2.2 hok⟩

end Console816.Console
