import Console816.Journal.Console
import Console816.Proofs.Processor.Lockstep

namespace Console816

namespace Execution

section Note

variable {μ α β : Type} {kept : Registers → Prop}

-- A memory with a journal, and the same memory without one.
def Noted (observed : Observed μ) (memory : μ) : Prop := observed.memory = memory

theorem Matched.note_bind {next : Unit → Execution (Observed μ) α} {other : Execution μ α}
    (hnext : Matched (Alike kept Noted) (next ()) other) (remark : Remark) :
    Matched (Alike kept Noted) (note remark >>= next) other :=
  fun _ _ hrel => hnext _ _ { hrel with memory := hrel.memory }

theorem Matched.noteEntry_bind {next : Unit → Execution (Observed μ) α} {other : Execution μ α}
    (hnext : Matched (Alike kept Noted) (next ()) other) (interrupt : Interrupt) :
    Matched (Alike kept Noted) (noteEntry interrupt >>= next) other :=
  fun _ _ hrel => hnext _ _ { hrel with memory := hrel.memory }

end Note

variable {μ : Type} [Memory μ] [Remarking μ]

theorem lockstep_noted : Lockstep (fun _ => True) (Noted (μ := μ)) where
  changed _ _ := trivial
  loaded address observed memory hnoted := by
    obtain ⟨memory, journal⟩ := observed
    obtain rfl : memory = _ := hnoted
    exact ⟨rfl, rfl⟩
  stored address value observed memory hnoted := by
    obtain ⟨memory, journal⟩ := observed
    obtain rfl : memory = _ := hnoted
    exact ⟨rfl, rfl⟩

-- The processor is told of nothing that is noted.

theorem matched_toldRun (instruction : Instruction) :
    Matched (Alike (fun _ => True) (Noted (μ := μ)))
      (do
        run instruction
        if let .raise interrupt := instruction.operation.mnemonic.action then
          noteEntry interrupt)
      (run instruction) := by
  rw [← bind_pure (run (μ := μ) instruction)]
  refine (lockstep_noted.run instruction).bind fun _ => ?_
  split
  case h_1 interrupt _ => exact fun _ _ hrel => ⟨rfl, { hrel with memory := hrel.memory }⟩
  case h_2 => exact .pure ()

theorem matched_observedTick (table : OpcodeTable) :
    Matched (Alike (fun _ => True) (Noted (μ := μ))) (observedTick table) (tick table) := by
  -- what follows the entry, whether it is noted or there is none
  have hrest :
      Matched (Alike (fun _ => True) (Noted (μ := μ)))
        (do
          unless ← isHalted do
            let instruction ← fetch table
            note (.executing instruction (← registers))
            run instruction
            if let .raise interrupt := instruction.operation.mnemonic.action then
              noteEntry interrupt)
        (do
          unless ← isHalted do
            run (← fetch table)) := by
    refine Matched.isHalted.bind fun halted => ?_
    cases halted with
    | true => exact .pure ()
    | false =>
      refine (lockstep_noted.fetch table).bind fun instruction => ?_
      intro machine other hrel
      rw [registers_bind_apply]
      refine Matched.note_bind ?_ (.executing instruction machine.registers) machine other hrel
      exact matched_toldRun instruction
  refine lockstep_noted.acknowledge.bind fun taken => ?_
  cases taken with
  | none => exact hrest
  | some interrupt => exact Matched.noteEntry_bind hrest interrupt

end Execution

-- A console does the same with a journal as without one.
theorem ObservedConsole.tick_transparent (observed : ObservedConsole) :
    observed.tick.1 = observed.console.tick.1 ∧
      observed.tick.2.console = observed.console.tick.2 := by
  obtain ⟨⟨processor, bus⟩, journal⟩ := observed
  have hsame : Processor.SameOutcome (fun _ => True) Execution.Noted
      (processor.observedTick (⟨bus, journal⟩ : Observed Bus)) (processor.tick bus) :=
    Processor.sameOutcome_execute (Execution.matched_observedTick processor.opcodes) processor
      trivial rfl
  obtain ⟨hanswer, hprocessor, -, hmemory⟩ := hsame
  simp only [tick, onBus, Console.tick, Console.afterProcessor]
  rcases hone : processor.observedTick (⟨bus, journal⟩ : Observed Bus) with
    ⟨answer, left, bus₁, journal₁⟩
  rcases htwo : processor.tick bus with ⟨answer', left', bus₂⟩
  rw [hone, htwo] at hanswer hprocessor hmemory
  obtain rfl : answer = answer' := hanswer
  obtain rfl : left = left' := hprocessor
  obtain rfl : bus₁ = bus₂ := hmemory
  cases answer <;> exact ⟨rfl, rfl⟩

end Console816
