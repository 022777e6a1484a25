import Console816.Proofs.Memory.Flat
import Console816.Proofs.Processor.StackPage

namespace Console816.Processor

open Execution

variable {μ : Type} [Memory μ]

-- What a host can do to a processor on a memory. `exchange` stands for whatever happens to the
-- memory between two pieces of the processor's work.
inductive Command (μ : Type) where
  | tick
  | reset
  | request (interrupt : Interrupt)
  | clear (interrupt : Interrupt)
  | poll (irqDisabled : Bool)
  | insert (operation : Operation)
  | erase (opcode : UInt8)
  | exchange (memory : μ)

namespace Command

-- Errors change nothing about what a command leaves behind, so that they are not kept here.
def apply (command : Command μ) (processor : Processor) (memory : μ) : Processor × μ :=
  match command with
  | tick => (processor.tick memory).2
  | reset => (processor.reset memory).2
  | request interrupt => (processor.request interrupt, memory)
  | clear interrupt =>
    ({ processor with interrupts := processor.interrupts.clear interrupt }, memory)
  | poll irqDisabled =>
    ({ processor with interrupts := (processor.interrupts.poll irqDisabled).2 }, memory)
  | insert operation => ({ processor with opcodes := processor.opcodes.insert operation }, memory)
  | erase opcode => ({ processor with opcodes := processor.opcodes.erase opcode }, memory)
  | exchange other => (processor, other)

-- The stack bytes of a command that is given in emulation mode.
def stackBytes (command : Command μ) (processor : Processor) (memory : μ) : List Access :=
  match processor, command with
  | ⟨registers, interrupts, opcodes, _⟩, tick =>
    tickStackBytes opcodes ⟨registers, interrupts, memory, 0⟩
  | ⟨registers, interrupts, _, _⟩, reset =>
    entryStackBytes (enter .reset) ⟨registers, interrupts, memory, 0⟩
  | _, _ => []

end Command

def run (processor : Processor) (memory : μ) : List (Command μ) → Processor × μ
  | [] => (processor, memory)
  | command :: rest =>
    let (processor, memory) := command.apply processor memory
    run processor memory rest

-- The stack bytes of a whole run, from the parts that run in emulation mode.
def stackBytes (processor : Processor) (memory : μ) : List (Command μ) → List Access
  | [] => []
  | command :: rest =>
    let (after, left) := command.apply processor memory
    command.stackBytes processor memory ++ stackBytes after left rest

theorem widthsAgree_apply (command : Command μ) {processor : Processor} (memory : μ)
    (hwidths : processor.registers.WidthsAgree) :
    (command.apply processor memory).1.registers.WidthsAgree := by
  cases command with
  | tick => exact (sameOutcome_tick lockstep_widths processor hwidths rfl).kept
  | reset => exact (sameOutcome_reset lockstep_widths processor hwidths rfl).kept
  | request | clear | poll | insert | erase | exchange => exact hwidths

theorem inPageOne_of_mem_stackBytes (command : Command μ) {processor : Processor} (memory : μ)
    (hwidths : processor.registers.WidthsAgree) :
    ∀ access ∈ command.stackBytes processor memory, access.address.InPageOne := by
  cases command with
  | tick => exact inPageOne_of_mem_tick processor.opcodes hwidths
  | reset => exact inPageOne_of_mem_entry (StaysInPageOne.enter .reset) hwidths
  | request | clear | poll | insert | erase | exchange => exact fun _ hmem => nomatch hmem

theorem widthsAgree_run {processor : Processor} (memory : μ)
    (hwidths : processor.registers.WidthsAgree) (commands : List (Command μ)) :
    (run processor memory commands).1.registers.WidthsAgree ∧
      ∀ access ∈ stackBytes processor memory commands, access.address.InPageOne := by
  induction commands generalizing processor memory with
  | nil => exact ⟨hwidths, fun _ hmem => nomatch hmem⟩
  | cons command rest ih =>
      have hafter := widthsAgree_apply command memory hwidths
      obtain ⟨hreached, hrest⟩ := ih (command.apply processor memory).2 hafter
      refine ⟨hreached, fun access hmem => ?_⟩
      rcases List.mem_append.mp hmem with hmem | hmem
      · exact inPageOne_of_mem_stackBytes command memory hwidths access hmem
      · exact hrest access hmem

-- After every step from power-on, on whatever memory and with whatever opcodes, the registers have
-- the widths and the stack page that the mode asks for.
theorem widthsAgree_and_stack_inPageOne (memory : μ) (commands : List (Command μ)) :
    (run powerOn memory commands).1.registers.WidthsAgree ∧
      ∀ access ∈ stackBytes powerOn memory commands, access.address.InPageOne :=
  widthsAgree_run memory Registers.widthsAgree_powerOn commands

-- A first tick on a memory of zeros resets and then runs into a BRK, whose stack wraps at the
-- bottom of page 1.
theorem stack_inPageOne_breakAtPowerOn :
    (stackBytes powerOn (⟨fun _ => 0⟩ : FlatMemory) [.tick]).map Access.address =
        [⟨0, 0x0100⟩, ⟨0, 0x01FF⟩, ⟨0, 0x01FE⟩] ∧
      ∀ access ∈ stackBytes powerOn (⟨fun _ => 0⟩ : FlatMemory) [.tick],
        access.address.InPageOne :=
  ⟨by decide +kernel, (widthsAgree_and_stack_inPageOne (⟨fun _ => 0⟩ : FlatMemory) [.tick]).2⟩

end Console816.Processor
