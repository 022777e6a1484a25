import Console816.Proofs.Processor.Commands
import Console816.Proofs.Processor.Turns

namespace Console816.Processor

open Execution

-- What reaches a processor: requests, ticks, and whatever happens to the memory in between.
inductive Event (μ : Type) where
  | request (interrupt : Interrupt)
  | tick
  | exchange (memory : μ)

-- What became of the requests of one interrupt. Those that found it pending are not counted.
structure Ledger where
  made : Nat := 0
  -- entered to the end
  completed : Nat := 0
  -- forgotten by a reset that was itself entered to the end
  discarded : Nat := 0
  -- taken by an entry that broke off, or forgotten by a reset that did
  lost : Nat := 0

namespace Ledger

instance : Add Ledger where
  add one other :=
    ⟨one.made + other.made, one.completed + other.completed, one.discarded + other.discarded,
      one.lost + other.lost⟩

-- Every request that was pending or has been made is accounted for once.
def Balances (ledger : Ledger) (before after : Bool) : Prop :=
  before.toNat + ledger.made =
    ledger.completed + ledger.discarded + ledger.lost + after.toNat

theorem Balances.add {one other : Ledger} {before between after : Bool}
    (hone : one.Balances before between) (hother : other.Balances between after) :
    (one + other).Balances before after := by
  change before.toNat + (one.made + other.made) = one.completed + other.completed +
    (one.discarded + other.discarded) + (one.lost + other.lost) + after.toNat
  simp only [Balances] at hone hother
  omega

end Ledger

variable {μ : Type} [Memory μ]

-- The entry of the next tick breaks off, and with it goes a request that it has taken or, as a
-- reset, forgotten.
def Loses (processor : Processor) (interrupt : Interrupt) (memory : μ) : Prop :=
  processor.isPending interrupt = true ∧ ∃ other error,
    processor.taken = some other ∧ (other = interrupt ∨ other = .reset) ∧
      BreaksOff other (processor.polled memory) error

namespace Event

def command : Event μ → Command μ
  | request interrupt => .request interrupt
  | tick => .tick
  | exchange memory => .exchange memory

-- What an event does to the requests of an interrupt.
def ledger (interrupt : Interrupt) (event : Event μ) (processor : Processor) (memory : μ) :
    Ledger :=
  match event with
  | request other =>
    if other = interrupt ∧ processor.isPending interrupt = false then { made := 1 } else {}
  | tick =>
    let completes := (processor.entered memory).1.isOk
    if processor.taken = some interrupt then
      if completes then { completed := 1 } else { lost := 1 }
    else if processor.taken = some .reset ∧ processor.isPending interrupt = true then
      if completes then { discarded := 1 } else { lost := 1 }
    else {}
  | exchange _ => {}

theorem balances_ledger (interrupt : Interrupt) (event : Event μ) (processor : Processor)
    (memory : μ) :
    (event.ledger interrupt processor memory).Balances (processor.isPending interrupt)
      ((event.command.apply processor memory).1.isPending interrupt) := by
  cases event with
  | exchange => exact Nat.add_comm ..
  | request other =>
      have hafter : (processor.request other).isPending interrupt =
          (processor.isPending interrupt || interrupt == other) :=
        processor.interrupts.isPending_request other interrupt
      simp only [Event.ledger, command, Command.apply, hafter, Ledger.Balances]
      by_cases hsame : other = interrupt
      · subst hsame
        cases processor.isPending other <;> simp
      · have hother : (interrupt == other) = false := beq_false_of_ne (Ne.symm hsame)
        simp [hsame, hother]
  | tick =>
      have hafter := processor.isPending_tick memory interrupt
      simp only [Event.ledger, command, Command.apply, hafter, Ledger.Balances]
      by_cases htaken : processor.taken = some interrupt
      · have hpending := (processor.inTurn memory).requested interrupt htaken
        simp only [htaken, hpending, if_true]
        split <;> simp
      · have hother : (processor.taken != some interrupt) = true := bne_iff_ne.mpr htaken
        rw [if_neg htaken, hother]
        by_cases hreset : processor.taken = some .reset
        · cases hpending : processor.isPending interrupt with
          | false => simp
          | true =>
              rw [if_pos ⟨hreset, rfl⟩, hreset]
              split <;> simp
        · have hno : (processor.taken != some .reset) = true := bne_iff_ne.mpr hreset
          simp [hreset, hno]

theorem lost_iff {interrupt : Interrupt} {event : Event μ} {processor : Processor} {memory : μ} :
    (event.ledger interrupt processor memory).lost ≠ 0 ↔
      event = .tick ∧ processor.Loses interrupt memory := by
  cases event with
  | exchange => simp [Event.ledger]
  | request other =>
      have hnone : (Event.ledger interrupt (.request other) processor memory).lost = 0 := by
        simp only [Event.ledger]
        split <;> rfl
      simp [hnone]
  | tick =>
      have hloses {other : Interrupt} (htaken : processor.taken = some other) :
          processor.Loses interrupt memory ↔ processor.isPending interrupt = true ∧
            (other = interrupt ∨ other = .reset) ∧ (processor.entered memory).1.isOk = false := by
        rw [isOk_entered htaken]
        simp [Loses, htaken]
      cases htaken : processor.taken with
      | none => simp [Event.ledger, Loses, htaken]
      | some other =>
          rw [hloses htaken]
          simp only [Event.ledger, htaken, Option.some.injEq, true_and]
          by_cases hsame : other = interrupt
          · have hpending := (processor.inTurn memory).requested other htaken
            subst hsame
            cases (processor.entered memory).1.isOk <;> simp [hpending]
          · by_cases hreset : other = .reset ∧ processor.isPending interrupt = true
            · rw [if_neg hsame, if_pos hreset]
              cases (processor.entered memory).1.isOk <;> simp [hreset]
            · rw [if_neg hsame, if_neg hreset]
              simp only [ne_eq, not_true, hsame, false_or, false_iff]
              exact fun ⟨hpending, hother, _⟩ => hreset ⟨hother, hpending⟩

end Event

-- Where a run of events leads.
def after (processor : Processor) (memory : μ) (events : List (Event μ)) : Processor × μ :=
  run processor memory (events.map Event.command)

def ledger (interrupt : Interrupt) (processor : Processor) (memory : μ) : List (Event μ) → Ledger
  | [] => {}
  | event :: rest =>
    let (reached, left) := event.command.apply processor memory
    event.ledger interrupt processor memory + ledger interrupt reached left rest

theorem balances_ledger (interrupt : Interrupt) (processor : Processor) (memory : μ)
    (events : List (Event μ)) :
    (ledger interrupt processor memory events).Balances (processor.isPending interrupt)
      ((processor.after memory events).1.isPending interrupt) := by
  induction events generalizing processor memory with
  | nil => exact Nat.add_comm ..
  | cons event rest ih =>
      exact (event.balances_ledger interrupt processor memory).add
        (ih (event.command.apply processor memory).1 (event.command.apply processor memory).2)

theorem lost_iff {interrupt : Interrupt} {processor : Processor} {memory : μ}
    {events : List (Event μ)} :
    (ledger interrupt processor memory events).lost ≠ 0 ↔
      ∃ before rest, events = before ++ .tick :: rest ∧
        (processor.after memory before).1.Loses interrupt (processor.after memory before).2 := by
  induction events generalizing processor memory with
  | nil => simp [ledger]
  | cons event rest ih =>
      have hsum : (ledger interrupt processor memory (event :: rest)).lost =
          (event.ledger interrupt processor memory).lost +
            (ledger interrupt (event.command.apply processor memory).1
              (event.command.apply processor memory).2 rest).lost := rfl
      have hsplit : (ledger interrupt processor memory (event :: rest)).lost ≠ 0 ↔
          (event.ledger interrupt processor memory).lost ≠ 0 ∨
            (ledger interrupt (event.command.apply processor memory).1
              (event.command.apply processor memory).2 rest).lost ≠ 0 := by omega
      rw [hsplit, Event.lost_iff, ih]
      constructor
      · rintro (⟨rfl, hloses⟩ | ⟨before, later, rfl, hloses⟩)
        · exact ⟨[], rest, rfl, hloses⟩
        · exact ⟨event :: before, later, rfl, hloses⟩
      · rintro ⟨before, later, hevents, hloses⟩
        cases before with
        | nil =>
            cases hevents
            exact .inl ⟨rfl, hloses⟩
        | cons first before =>
            cases hevents
            exact .inr ⟨before, later, rfl, hloses⟩

-- Whatever requests and ticks come, and whatever the memory answers, every request is accounted for
-- once: it is pending, its handler has been entered, or a reset forgot it. It is lost only where an
-- access of an entry fails, since what is taken is not pending any more by then. Requests for what
-- is pending merge, nothing is entered that was not requested, and requests are served in turn.
theorem requests_accounted (interrupt : Interrupt) (processor : Processor) (memory : μ)
    (events : List (Event μ)) :
    let reached := processor.after memory events
    let ledger := ledger interrupt processor memory events
    ledger.Balances (processor.isPending interrupt) (reached.1.isPending interrupt) ∧
      (ledger.lost ≠ 0 ↔ ∃ before rest, events = before ++ .tick :: rest ∧
        (processor.after memory before).1.Loses interrupt (processor.after memory before).2) ∧
      (reached.1.isPending interrupt = true → reached.1.request interrupt = reached.1) ∧
      reached.1.InTurn reached.2 := by
  refine ⟨balances_ledger interrupt processor memory events, lost_iff, ?_, inTurn _ _⟩
  intro hpending
  rw [Processor.request, InterruptState.request_of_isPending hpending]

-- A memory that cannot be written.
structure ReadOnlyMemory where
  byte : Address → UInt8

instance : Memory ReadOnlyMemory where
  load address memory := (.ok (memory.byte address), memory)
  store address _ memory := (.error (.unmappedCartridgeRead address), memory)

-- There, an NMI is not pending any more after its frame could not be pushed, and was not entered.
theorem nmi_lost_of_failedPush :
    let memory : ReadOnlyMemory := ⟨fun _ => 0xEA⟩
    let events := [.tick, .request .nmi, .tick]
    (powerOn.after memory events).1.isPending .nmi = false ∧
      (ledger .nmi powerOn memory events).made = 1 ∧
      (ledger .nmi powerOn memory events).completed = 0 ∧
      (ledger .nmi powerOn memory events).lost = 1 := by
  intro memory events
  have hpending : (powerOn.after memory events).1.isPending .nmi = false := by decide +kernel
  have hmade : (ledger .nmi powerOn memory events).made = 1 := by decide +kernel
  have hcompleted : (ledger .nmi powerOn memory events).completed = 0 := by decide +kernel
  have hdiscarded : (ledger .nmi powerOn memory events).discarded = 0 := by decide +kernel
  have hbalances := (requests_accounted .nmi powerOn memory events).1
  refine ⟨hpending, hmade, hcompleted, ?_⟩
  have hbefore : powerOn.isPending .nmi = false := by decide
  change Ledger.Balances _ _ ((powerOn.after memory events).1.isPending .nmi) at hbalances
  simp only [Ledger.Balances, hpending, hbefore, hmade, hcompleted, hdiscarded] at hbalances
  simpa using hbalances.symm

end Console816.Processor
