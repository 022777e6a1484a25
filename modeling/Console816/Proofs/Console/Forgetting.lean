import Console816.Proofs.Console.Reset
import Console816.Proofs.Console.SaveState

namespace Console816

-- What stands in the upper half of bank 0 after a reset depends on the cartridge alone.
theorem Bus.topByte_reset {bus other : Bus}
    (hsame : bus.cartridge.map Cartridge.untitled = other.cartridge.map Cartridge.untitled)
    (offset : UInt16) : bus.reset.topByte offset = other.reset.topByte offset := by
  have huntitled (bus : Bus) : bus.reset.topByte offset =
      ((bus.cartridge.map Cartridge.untitled).map fun cartridge =>
        cartridge.rom.byteAt (cartridge.mapping.romIndex ⟨0, offset⟩)).getD 0 := by
    obtain ⟨workRam, io, bRegisters, cartridge, latch, pause⟩ := bus
    cases cartridge <;> rfl
  rw [huntitled bus, huntitled other, hsame]

namespace Console

-- The cycles are counted from power-on, and the count is never looked at.
def uncounted (console : Console) : Console :=
  { console with processor := { console.processor with cycles := 0 } }

def uncountedAfter {α : Type} (answer : α × Console) : α × Console :=
  (answer.1, answer.2.uncounted)

section Uncounted

variable (console : Console)

theorem uncounted_reset :
    uncountedAfter console.uncounted.reset = uncountedAfter console.reset := by
  simp only [reset_eq]
  rfl

theorem uncounted_insert (cartridge : Cartridge) :
    uncountedAfter (console.uncounted.insert cartridge) =
      uncountedAfter (console.insert cartridge) :=
  uncounted_reset { console with bus := console.bus.insert cartridge }

theorem uncounted_tick :
    uncountedAfter console.uncounted.tick = uncountedAfter console.tick := by
  obtain ⟨⟨registers, interrupts, opcodes, cycles⟩, bus⟩ := console
  simp only [tick, uncounted, Processor.tick, Processor.execute]
  rcases Execution.tick opcodes ⟨registers, interrupts, bus, 0⟩ with ⟨answer, machine⟩
  cases answer <;> rfl

theorem uncounted_apply (command : Command) :
    uncountedAfter (command.apply console.uncounted) =
      uncountedAfter (command.apply console) := by
  have hmap {α β : Type} (f : α → β) {answer answer' : Except ConsoleError α × Console}
      (hanswer : uncountedAfter answer = uncountedAfter answer') :
      uncountedAfter (answer.1.map f, answer.2) = uncountedAfter (answer'.1.map f, answer'.2) :=
    congrArg (fun answer => (answer.1.map f, answer.2)) hanswer
  cases command with
  | load data =>
      simp only [Command.apply, load]
      cases Cartridge.ofBytes data with
      | error error => rfl
      | ok cartridge => exact hmap _ (console.uncounted_insert cartridge)
  | insert cartridge => exact hmap _ (console.uncounted_insert cartridge)
  | reset => exact hmap _ console.uncounted_reset
  | tick => exact hmap _ console.uncounted_tick
  | verticalBlank =>
      cases henabled : console.bus.io.raiseNmiFlag.nmiEnabled <;>
        simp only [Command.apply, verticalBlank, uncounted, henabled, if_true, Bool.false_eq_true,
          if_false] <;>
        rfl
  | raiseIrq => rfl

end Uncounted

-- Consoles that differ in the counts of their cycles and the titles of their cartridges at most.
def SameButCount (console other : Console) : Prop :=
  console.uncounted.SameButTitle other.uncounted

-- Whatever is done to both, the answers are the same, and so is all that they come to be.
def Indistinguishable (console other : Console) : Prop :=
  ∀ commands,
    (observe console commands).map Prod.fst = (observe other commands).map Prod.fst ∧
      (run console commands).SameButCount (run other commands)

namespace SameButCount

variable {console other : Console}

theorem apply (hsame : console.SameButCount other) (command : Command) :
    (command.apply console).1 = (command.apply other).1 ∧
      (command.apply console).2.SameButCount (command.apply other).2 := by
  have huncounted (console : Console) :
      (command.apply console.uncounted).1 = (command.apply console).1 ∧
        (command.apply console.uncounted).2.uncounted = (command.apply console).2.uncounted :=
    Prod.ext_iff.mp (console.uncounted_apply command)
  obtain ⟨hanswer, hprocessor, hbus⟩ := SameButTitle.apply hsame command
  rw [(huncounted console).1, (huncounted other).1] at hanswer
  refine ⟨hanswer, ?_⟩
  rw [SameButCount, ← (huncounted console).2, ← (huncounted other).2]
  exact ⟨congrArg (fun processor => { processor with cycles := 0 }) hprocessor, hbus⟩

theorem indistinguishable (hsame : console.SameButCount other) :
    console.Indistinguishable other := by
  intro commands
  induction commands generalizing console other with
  | nil => exact ⟨rfl, hsame⟩
  | cons command rest ih =>
      obtain ⟨hanswer, hafter⟩ := hsame.apply command
      obtain ⟨hanswers, hrun⟩ := ih hafter
      refine ⟨?_, hrun⟩
      simp only [observe, List.map_cons, hanswer, hanswers]

end SameButCount

-- Consoles whose pasts differ in whatever a reset should forget.
structure SameMemory (console other : Console) : Prop where
  opcodes : console.processor.opcodes = other.processor.opcodes
  a : console.processor.registers.a = other.processor.registers.a
  x : console.processor.registers.x &&& 0xFF = other.processor.registers.x &&& 0xFF
  y : console.processor.registers.y &&& 0xFF = other.processor.registers.y &&& 0xFF
  workRam : console.bus.workRam.data = other.bus.workRam.data
  cartridge :
    console.bus.cartridge.map Cartridge.untitled = other.bus.cartridge.map Cartridge.untitled

def withCursor (console : Console) (cursor : UInt32) : Console :=
  { console with bus := { console.bus with workRam := { console.bus.workRam with cursor } } }

theorem SameMemory.reset {console other : Console} (hsame : console.SameMemory other)
    (cursor : UInt32) :
    (console.reset.2.withCursor cursor).SameButCount (other.reset.2.withCursor cursor) := by
  obtain ⟨hopcodes, ha, hx, hy, hdata, hcartridge⟩ := hsame
  have hlow := Bus.topByte_reset hcartridge 0xFFFC
  have hhigh := Bus.topByte_reset hcartridge 0xFFFD
  rw [reset_eq, reset_eq, hlow, hhigh]
  constructor
  · simp only [uncounted, withCursor, restarted, hopcodes, ha, hx, hy]
  · simp only [uncounted, withCursor, restarted, Bus.untitled, hdata, hcartridge]

theorem cursor_reset (console : Console) :
    console.reset.2.bus.workRam.cursor = console.bus.workRam.cursor := by
  rw [reset_eq]
  rfl

theorem withCursor_reset (console : Console) :
    console.reset.2.withCursor console.bus.workRam.cursor = console.reset.2 := by
  rw [reset_eq]
  rfl

theorem read_data_reset (console : Console) :
    (console.reset.2.bus.read ⟨0, 0x2180⟩).1 = .ok console.bus.workRam.peekNext := by
  rw [reset_eq]
  rfl

-- Of all registers, a reset leaves the cursor of the work RAM alone, and the next program reads
-- where the past has moved it. There is no other trace of the past: consoles cannot be told apart
-- once their cursors are set alike.
theorem reset_forgets_iff_cursor {console other : Console} (hsame : console.SameMemory other) :
    console.reset.1 = .ok () ∧ other.reset.1 = .ok () ∧
      (∀ cursor,
        (console.reset.2.withCursor cursor).Indistinguishable (other.reset.2.withCursor cursor)) ∧
      (console.reset.2.Indistinguishable other.reset.2 ↔
        console.bus.workRam.cursor = other.bus.workRam.cursor) ∧
      (console.reset.2.bus.read ⟨0, 0x2180⟩).1 = .ok console.bus.workRam.peekNext := by
  have hforgets (cursor : UInt32) := (hsame.reset cursor).indistinguishable
  refine ⟨by rw [reset_eq], by rw [reset_eq], hforgets, ⟨fun hsight => ?_, fun hcursor => ?_⟩,
    console.read_data_reset⟩
  · -- the state right after the reset is enough
    have hbus := (hsight []).2.bus
    rw [← console.cursor_reset, ← other.cursor_reset]
    exact congrArg (fun bus => bus.workRam.cursor) hbus
  · have hown := hforgets console.bus.workRam.cursor
    rw [console.withCursor_reset, hcursor, other.withCursor_reset] at hown
    exact hown

-- A console in use, with the memory of a new one.
def inUse : Console where
  processor :=
    { Processor.powerOn with
      registers := { Registers.powerOn with x := 0x1200, d := 0x4300, k := 0x7E }
      interrupts := { pending := Interrupt.nmi.mask, stopped := true }
      cycles := 1000 }
  bus :=
    { Bus.powerOn with
      workRam := { WorkRam.powerOn with cursor := 1 }
      io := IoRegisters.powerOn.raiseNmiFlag
      latch := 0xAA
      pause := 8 }

theorem reset_forgets_iff_cursor_inUse :
    inUse.SameMemory powerOn ∧ ¬inUse.reset.2.Indistinguishable powerOn.reset.2 := by
  have hsame : inUse.SameMemory powerOn := ⟨rfl, rfl, rfl, rfl, rfl, rfl⟩
  obtain ⟨-, -, -, hiff, -⟩ := reset_forgets_iff_cursor hsame
  have hcursor : inUse.bus.workRam.cursor ≠ powerOn.bus.workRam.cursor := by decide
  exact ⟨hsame, fun hsight => hcursor (hiff.mp hsight)⟩

end Console

end Console816
