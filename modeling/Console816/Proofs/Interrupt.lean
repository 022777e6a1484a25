import Console816.Interrupt

namespace Console816

namespace Interrupt

theorem mask_ne_zero (interrupt : Interrupt) : interrupt.mask ≠ 0 := by
  cases interrupt <;> decide

-- Every interrupt has a bit of its own.
theorem mask_and_mask {interrupt other : Interrupt} (hne : other ≠ interrupt) :
    interrupt.mask &&& other.mask = 0 := by
  cases interrupt <;> cases other <;> first | exact absurd rfl hne | rfl

theorem not_mask_and_mask {interrupt other : Interrupt} (hne : other ≠ interrupt) :
    ~~~interrupt.mask &&& other.mask = other.mask := by
  cases interrupt <;> cases other <;> first | exact absurd rfl hne | rfl

end Interrupt

namespace InterruptState

theorem isPending_request (state : InterruptState) (interrupt other : Interrupt) :
    (state.request interrupt).isPending other = (state.isPending other || other == interrupt) := by
  have hor : (state.pending ||| interrupt.mask) &&& other.mask =
      (state.pending &&& other.mask) ||| (interrupt.mask &&& other.mask) :=
    UInt8.toBitVec_inj.mp BitVec.and_or_distrib_right
  by_cases hsame : other = interrupt
  · subst hsame
    have hne : state.pending &&& other.mask ||| other.mask ≠ 0 := fun h =>
      other.mask_ne_zero (UInt8.or_eq_zero_iff.mp h).2
    simp [isPending, request, hor, hne]
  · simp [isPending, request, hor, Interrupt.mask_and_mask hsame, hsame]

theorem isPending_clear (state : InterruptState) (interrupt other : Interrupt) :
    (state.clear interrupt).isPending other = (state.isPending other && other != interrupt) := by
  by_cases hsame : other = interrupt
  · subst hsame
    simp [isPending, clear, UInt8.and_assoc]
  · simp [isPending, clear, UInt8.and_assoc, Interrupt.not_mask_and_mask hsame, hsame]

-- Requests for what is pending already change nothing.
theorem request_of_isPending {state : InterruptState} {interrupt : Interrupt}
    (hpending : state.isPending interrupt) : state.request interrupt = state := by
  have hall : ∀ byte : Fin 0x100,
      UInt8.ofNat byte &&& interrupt.mask ≠ 0 →
        UInt8.ofNat byte ||| interrupt.mask = UInt8.ofNat byte := by
    cases interrupt <;> decide +kernel
  have hone := hall ⟨state.pending.toNat, state.pending.toNat_lt⟩
  simp only [UInt8.ofNat_toNat] at hone
  have hpending : state.pending ||| interrupt.mask = state.pending :=
    hone (by simpa [isPending] using hpending)
  simp only [request, hpending]

-- What can be served now. I keeps an IRQ back, and STP keeps back everything but a reset.
def canServe (state : InterruptState) (irqDisabled : Bool) (interrupt : Interrupt) : Bool :=
  state.isPending interrupt && (!state.stopped || interrupt == .reset) &&
    !(interrupt == .irq && irqDisabled)

-- The first that can be served is taken.
theorem poll_fst (state : InterruptState) (irqDisabled : Bool) :
    (state.poll irqDisabled).1 = Interrupt.priority.find? (state.canServe irqDisabled) := by
  have hpoll : (state.poll irqDisabled).1 =
      if state.stopped && !state.isPending .reset then none else state.next irqDisabled := by
    unfold poll
    split
    · rfl
    · split <;> exact Eq.symm ‹_›
  have hserve : state.canServe irqDisabled = fun interrupt =>
      state.isPending interrupt && (!state.stopped || interrupt == .reset) &&
        !(interrupt == .irq && irqDisabled) := rfl
  rw [hpoll, hserve, next]
  cases hstopped : state.stopped with
  | false => simp
  | true =>
      cases hreset : state.isPending .reset with
      | false => simp [Interrupt.priority, hreset]
      | true => simp [Interrupt.priority, hreset]

-- What is taken is not pending any more, and nothing else changes.
theorem isPending_poll (state : InterruptState) (irqDisabled : Bool) (other : Interrupt) :
    (state.poll irqDisabled).2.isPending other =
      (state.isPending other && (state.poll irqDisabled).1 != some other) := by
  unfold poll
  split
  · simp
  · split
    · exact (isPending_clear ..).trans (by simp [bne, Bool.beq_comm])
    · simp [isPending]

-- A processor that runs on with nothing to service is left as it is.
theorem poll_of_next {state : InterruptState} {irqDisabled : Bool}
    (hrunning : state.isHalted = false) (hnext : state.next irqDisabled = none) :
    state.poll irqDisabled = (none, state) := by
  obtain ⟨pending, waiting, stopped⟩ := state
  simp only [isHalted, Bool.or_eq_false_iff] at hrunning
  obtain ⟨rfl, rfl⟩ := hrunning
  rw [poll, hnext]
  rfl

end InterruptState

end Console816
