namespace Console816

-- BRK and COP are raised by the instructions of those names.
inductive Interrupt where
  | reset
  | nmi
  | abort
  | irq
  | brk
  | cop
  deriving DecidableEq, Repr

namespace Interrupt

-- Highest priority first.
def priority : List Interrupt := [reset, nmi, abort, irq, brk, cop]

def name : Interrupt → String
  | reset => "Reset"
  | nmi => "Nmi"
  | abort => "Abort"
  | irq => "Irq"
  | brk => "Brk"
  | cop => "Cop"

-- The bit that marks the interrupt as pending.
def mask : Interrupt → UInt8
  | reset => 0x01
  | nmi => 0x02
  | abort => 0x04
  | irq => 0x08
  | brk => 0x10
  | cop => 0x20

-- Where bank 0 holds the address of the handler. BRK shares the IRQ vector in emulation mode.
def vector (emulation : Bool) : Interrupt → UInt16
  | reset => 0xFFFC
  | nmi => if emulation then 0xFFFA else 0xFFEA
  | abort => if emulation then 0xFFF8 else 0xFFE8
  | irq => if emulation then 0xFFFE else 0xFFEE
  | brk => if emulation then 0xFFFE else 0xFFE6
  | cop => if emulation then 0xFFF4 else 0xFFE4

end Interrupt

-- Pending interrupts and the halt states. WAI sets `waiting` until the next interrupt, STP sets
-- `stopped` until a reset.
structure InterruptState where
  pending : UInt8 := 0
  waiting : Bool := false
  stopped : Bool := false
  deriving DecidableEq, Repr, Inhabited

namespace InterruptState

def request (state : InterruptState) (interrupt : Interrupt) : InterruptState :=
  { state with pending := state.pending ||| interrupt.mask }

def clear (state : InterruptState) (interrupt : Interrupt) : InterruptState :=
  { state with pending := state.pending &&& ~~~interrupt.mask }

def isPending (state : InterruptState) (interrupt : Interrupt) : Bool :=
  state.pending &&& interrupt.mask != 0

-- No instruction runs while this holds.
def isHalted (state : InterruptState) : Bool := state.waiting || state.stopped

-- An IRQ waits while interrupts are disabled. All others are serviced as soon as they are first.
def next (state : InterruptState) (irqDisabled : Bool) : Option Interrupt :=
  Interrupt.priority.find? fun interrupt =>
    state.isPending interrupt && !(interrupt == .irq && irqDisabled)

-- Takes the interrupt to be serviced now, which also ends the wait. A masked IRQ ends the wait
-- without being taken. A stopped processor takes nothing until a reset is pending.
def poll (state : InterruptState) (irqDisabled : Bool) : Option Interrupt × InterruptState :=
  if state.stopped && !state.isPending .reset then (none, state)
  else
    match state.next irqDisabled with
    | some interrupt => (some interrupt, { state.clear interrupt with waiting := false })
    | none => (none, { state with waiting := state.waiting && !state.isPending .irq })

end InterruptState

end Console816
