import Console816.Processor.Data
import Console816.Processor.Stack

namespace Console816

namespace Registers

def word (r : Registers) : WordRegister → UInt16
  | .a => r.a
  | .x => r.x
  | .y => r.y
  | .s => r.s
  | .d => r.d

-- All sixteen bits are copied, whatever the widths are.
def assignWord (r : Registers) (target : WordRegister) (value : UInt16) : Registers :=
  let p := r.p.describe .word value
  match target with
  | .a => { r with p, a := value }
  | .x => { r with p, x := value }
  | .y => { r with p, y := value }
  | .s => { r with p, s := value }
  | .d => { r with p, d := value }

-- Copies to S set no flags, and keep S in page 1 in emulation mode.
def assignStack (r : Registers) (value : UInt16) : Registers :=
  { r with s := if r.emulation then 0x0100 ||| (value &&& 0xFF) else value }

-- N and Z describe the new low byte.
def swapBytes (r : Registers) : Registers :=
  let value := Word.join (Word.high r.a) (Word.low r.a)
  { r with a := value, p := r.p.describe .byte value }

def pushed (r : Registers) : Pushed → UInt16 × Width
  | .data register => (r.data register, r.dataWidth register)
  | .direct => (r.d, .word)
  | .dataBank => (r.dbr.toUInt16, .byte)
  | .programBank => (r.k.toUInt16, .byte)
  | .status => (r.p.byte.toUInt16, .byte)

def pulledWidth (r : Registers) : Pulled → Width
  | .data register => r.dataWidth register
  | .direct => .word
  | .dataBank | .status => .byte

-- A pulled status replaces P, everything else sets N and Z.
def assignPulled (r : Registers) (value : UInt16) : Pulled → Registers
  | .data register => r.assign register value
  | .direct => r.assignWord .d value
  | .dataBank => { r with dbr := value.toUInt8, p := r.p.describe .byte value }
  | .status => r.setStatus ⟨value.toUInt8⟩

-- The registers after one byte of a block move.
def moveOn (r : Registers) (delta : UInt16) : Registers :=
  { r with
    x := r.indexWidth.truncate (r.x + delta)
    y := r.indexWidth.truncate (r.y + delta)
    a := r.a - 1 }

end Registers

namespace Execution

variable {μ : Type} [Memory μ]

def push (source : Pushed) : Execution μ Unit := do
  let (value, width) := (← registers).pushed source
  pushWide value width
  if let .data _ := source then chargeWord width 1

def pull (target : Pulled) : Execution μ Unit := do
  let width := (← registers).pulledWidth target
  let value ← pullWide width
  modifyRegisters fun r => r.assignPulled value target
  if let .data _ := target then chargeWord width 1

-- PEA, PEI and PER push an address itself, without its bank.
def pushAddress (instruction : Instruction) : Execution μ Unit := do
  let address ← locateAddress instruction
  pushWord address.offset

def moveByte (target source : UInt8) (delta : UInt16) : Execution μ Unit := do
  let r ← registers
  let value ← loadByte ⟨source, r.x⟩
  storeByte ⟨target, r.y⟩ value
  modifyRegisters (·.moveOn delta)

-- One byte of a block move, with the answer whether A has run out. The table's count of cycles is
-- for the first byte.
def moveNext (target source : UInt8) (delta : UInt16) (first : Bool) : Execution μ Bool := do
  moveByte target source delta
  unless first do charge 7
  return (← registers).a == 0xFFFF

theorem a_of_moveByte {target source : UInt8} {delta : UInt16} {machine after : Machine μ}
    (hmoved : moveByte target source delta machine = (.ok (), after)) :
    after.registers.a = machine.registers.a - 1 := by
  rw [moveByte, registers_bind_apply] at hmoved
  obtain ⟨value, loaded, hload, hmoved⟩ := of_bind_ok hmoved
  obtain ⟨_, stored, hstore, hmoved⟩ := of_bind_ok hmoved
  cases hmoved
  have hkept : stored.registers = machine.registers :=
    (registers_of_storeByte hstore).trans (registers_of_loadByte hload)
  exact congrArg (·.a - 1) hkept

-- A goes down with every byte, and is above zero in front of all but the last.
theorem a_of_moveNext {target source : UInt8} {delta : UInt16} {first done : Bool}
    {machine after : Machine μ}
    (hmoved : moveNext target source delta first machine = (.ok done, after)) :
    after.registers.a = machine.registers.a - 1 ∧ done = (machine.registers.a == 0) := by
  obtain ⟨_, moved, hbyte, hmoved⟩ := of_bind_ok hmoved
  have ha := a_of_moveByte hbyte
  have hlast : (moved.registers.a == 0xFFFF) = (machine.registers.a == 0) := by
    rw [ha, Bool.eq_iff_iff, beq_iff_eq, beq_iff_eq]
    grind
  cases first <;> cases hmoved <;> exact ⟨ha, hlast⟩

def moveBytes (target source : UInt8) (delta : UInt16) (first : Bool) (machine : Machine μ) :
    Except ProcessorError Unit × Machine μ :=
  match _ : moveNext target source delta first machine with
  | (.ok false, after) => moveBytes target source delta false after
  | (.ok true, after) => (.ok (), after)
  | (.error error, after) => (.error error, after)
termination_by machine.registers.a.toNat
decreasing_by
  obtain ⟨ha, hmore⟩ := a_of_moveNext ‹_›
  have hne : machine.registers.a ≠ 0 := by simpa using hmore
  have hless := Word.toNat_sub_one hne
  rw [ha]
  omega

-- Moves bytes within one instruction until A has passed zero.
def blockMove (delta : UInt16) (instruction : Instruction) : Execution μ Unit := do
  match instruction.operand with
  | .blockMove target source =>
    modifyRegisters ({ · with dbr := target })
    moveBytes target source delta true
  | _ => invalidOperand instruction.operation

end Execution

end Console816
