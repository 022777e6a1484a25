import Console816.Proofs.Memory.Flat
import Console816.Proofs.Processor.Lockstep
import Console816.Proofs.Registers.StackCells

namespace Console816

namespace FlatMemory

-- The memory after bytes have been pushed, the first of them at the cell `count`.
def push (memory : FlatMemory) (emulation : Bool) (s : UInt16) (count : Nat) :
    List UInt8 → FlatMemory
  | [] => memory
  | value :: values =>
    (memory.set (Stack.cell emulation s count) value).push emulation s (count + 1) values

-- The bytes that have been pushed are still there, from the cell `count` on.
def Holds (memory : FlatMemory) (emulation : Bool) (s : UInt16) : Nat → List UInt8 → Prop
  | _, [] => True
  | count, value :: values =>
    memory.byte (Stack.cell emulation s count) = value ∧
      memory.Holds emulation s (count + 1) values

-- Nothing has changed but the cells from `count` up to `last`.
def SameOutside (memory other : FlatMemory) (emulation : Bool) (s : UInt16) (count last : Nat) :
    Prop :=
  ∀ address, (∀ i, count ≤ i → i < last → address ≠ Stack.cell emulation s i) →
    other.byte address = memory.byte address

variable {memory other after : FlatMemory} {emulation : Bool} {s : UInt16}

theorem SameOutside.refl (memory : FlatMemory) (count last : Nat) :
    SameOutside memory memory emulation s count last :=
  fun _ _ => rfl

theorem SameOutside.trans {count last : Nat}
    (hfirst : SameOutside memory other emulation s count last)
    (hsecond : SameOutside other after emulation s count last) :
    SameOutside memory after emulation s count last :=
  fun address hout => (hsecond address hout).trans (hfirst address hout)

theorem SameOutside.mono {count last count' last' : Nat}
    (hsame : SameOutside memory other emulation s count last) (hcount : count' ≤ count)
    (hlast : last ≤ last') : SameOutside memory other emulation s count' last' :=
  fun address hout => hsame address fun i hi hlt => hout i (by omega) (by omega)

-- The cells further down are numbered on.
theorem SameOutside.of_below {count more : Nat}
    (hsame : SameOutside memory other emulation (Stack.below emulation s count) 0 more) :
    SameOutside memory other emulation s count (count + more) := by
  intro address hout
  refine hsame address fun i _ hlt => ?_
  rw [Stack.cell, Stack.below_below]
  exact hout (count + i) (Nat.le_add_right count i) (Nat.add_lt_add_left hlt count)

theorem sameOutside_push (memory : FlatMemory) (count : Nat) (values : List UInt8) :
    SameOutside memory (memory.push emulation s count values) emulation s count
      (count + values.length) := by
  induction values generalizing memory count with
  | nil => exact .refl memory _ _
  | cons value values ih =>
      intro address hout
      have hrest := ih (memory.set (Stack.cell emulation s count) value) (count + 1) address
        fun i hi hlt => hout i (by omega) (by simp only [List.length_cons]; omega)
      have hne := hout count (Nat.le_refl _) (by simp only [List.length_cons]; omega)
      exact hrest.trans (memory.set_byte_of_ne value hne)

theorem holds_push (memory : FlatMemory) (count : Nat) (values : List UInt8)
    (hroom : count + values.length ≤ Stack.size emulation) :
    (memory.push emulation s count values).Holds emulation s count values := by
  induction values generalizing memory count with
  | nil => trivial
  | cons value values ih =>
      simp only [List.length_cons] at hroom
      have hrest := ih (memory.set (Stack.cell emulation s count) value) (count + 1) (by omega)
      have hfirst : (memory.push emulation s count (value :: values)).byte
          (Stack.cell emulation s count) = _ :=
        sameOutside_push _ (count + 1) values _ fun i hi hlt =>
          Stack.cell_ne (by omega) (by omega) (by omega)
      exact ⟨hfirst.trans (memory.set_byte_self _ value), hrest⟩

-- Later changes further down the stack leave them alone.
theorem Holds.of_sameOutside {values : List UInt8} {count first last : Nat}
    (hholds : memory.Holds emulation s count values)
    (hsame : SameOutside memory other emulation s first last)
    (hfirst : count + values.length ≤ first)
    (hlast : last ≤ Stack.size emulation) : other.Holds emulation s count values := by
  induction values generalizing count with
  | nil => trivial
  | cons value values ih =>
      simp only [List.length_cons] at hfirst
      obtain ⟨hvalue, hrest⟩ := hholds
      have hout := hsame (Stack.cell emulation s count) fun i _ _ =>
        Stack.cell_ne (by omega) (by omega) (by omega)
      exact ⟨hout.trans hvalue, ih hrest (by omega)⟩

end FlatMemory

namespace Machine

-- The machine after bytes have been pushed, with what this leaves on a flat memory.
def push (machine : Machine FlatMemory) : List UInt8 → Machine FlatMemory
  | [] => machine
  | value :: values =>
    push { machine with
      registers := machine.registers.stackDown
      memory := machine.memory.set ⟨0, machine.registers.s⟩ value } values

theorem push_push (machine : Machine FlatMemory) (first second : List UInt8) :
    (machine.push first).push second = machine.push (first ++ second) := by
  induction first generalizing machine with
  | nil => rfl
  | cons value first ih => exact ih _

theorem push_below (machine : Machine FlatMemory) (s : UInt16) (count : Nat) (values : List UInt8)
    (hs : machine.registers.s = Stack.below machine.registers.emulation s count) :
    machine.push values =
      { machine with
        registers :=
          { machine.registers with
            s := Stack.below machine.registers.emulation s (count + values.length) }
        memory := machine.memory.push machine.registers.emulation s count values } := by
  induction values generalizing machine count with
  | nil => simp only [push, FlatMemory.push, List.length_nil, Nat.add_zero, ← hs]
  | cons value values ih =>
      have hdown := machine.registers.stackDown_below s count hs
      have hcell : (⟨0, machine.registers.s⟩ : Address) =
          Stack.cell machine.registers.emulation s count := by rw [Stack.cell, hs]
      rw [push, hdown, hcell, ih _ (count + 1) rfl]
      simp only [FlatMemory.push, List.length_cons, Nat.add_assoc, Nat.add_comm 1]

theorem push_eq {machine : Machine FlatMemory} (hwidths : machine.registers.WidthsAgree)
    (values : List UInt8) :
    machine.push values =
      { machine with
        registers :=
          { machine.registers with
            s := Stack.below machine.registers.emulation machine.registers.s values.length }
        memory :=
          machine.memory.push machine.registers.emulation machine.registers.s 0 values } := by
  have hs := (Stack.below_zero hwidths.page).symm
  rw [push_below machine machine.registers.s 0 values hs, Nat.zero_add]

end Machine

namespace Execution

-- What an acknowledgement does after it has polled for an interrupt.

section Acknowledge

variable {μ : Type} [Memory μ] {machine finished : Machine μ} {interrupts : InterruptState}

omit [Memory μ] in
theorem poll_apply (machine : Machine μ) (irqDisabled : Bool) :
    (modifyGet fun machine =>
      let (taken, interrupts) := machine.interrupts.poll irqDisabled
      (taken, { machine with interrupts }) : Execution μ (Option Interrupt)) machine =
      (.ok (machine.interrupts.poll irqDisabled).1,
        { machine with interrupts := (machine.interrupts.poll irqDisabled).2 }) :=
  rfl

theorem acknowledge_none
    (hpoll : machine.interrupts.poll (machine.registers.p.has .irqDisable) = (none, interrupts)) :
    acknowledge machine = (.ok none, { machine with interrupts }) := by
  rw [acknowledge, registers_bind_apply, bind_of_ok (poll_apply ..), hpoll]
  rfl

theorem acknowledge_some {kind : Interrupt}
    (hpoll : machine.interrupts.poll (machine.registers.p.has .irqDisable) =
      (some kind, interrupts)) :
    acknowledge machine =
      ((enter kind { machine with interrupts }).1.map fun _ => some kind,
        (enter kind { machine with interrupts }).2) := by
  rw [acknowledge, registers_bind_apply, bind_of_ok (poll_apply ..), hpoll]
  dsimp only
  rw [bind_apply]
  rcases enter kind { machine with interrupts } with ⟨answer, finished⟩
  cases answer <;> rfl

-- Nothing is taken, or a handler is entered.
theorem acknowledge_cases {taken : Option Interrupt}
    (hacknowledge : acknowledge machine = (.ok taken, finished)) :
    ∃ interrupts, taken = none ∧ finished = { machine with interrupts } ∨
      ∃ kind, taken = some kind ∧ enter kind { machine with interrupts } = (.ok (), finished) := by
  rcases hpoll : machine.interrupts.poll (machine.registers.p.has .irqDisable) with
    ⟨polled, interrupts⟩
  refine ⟨interrupts, ?_⟩
  cases polled with
  | none =>
      rw [acknowledge_none hpoll] at hacknowledge
      cases hacknowledge
      exact .inl ⟨rfl, rfl⟩
  | some kind =>
      rw [acknowledge_some hpoll] at hacknowledge
      rcases hentered : enter kind { machine with interrupts } with ⟨answer, entered⟩
      rw [hentered] at hacknowledge
      cases answer with
      | ok =>
          cases hacknowledge
          exact .inr ⟨kind, rfl, hentered⟩
      | error error => cases hacknowledge

end Acknowledge

-- What pushes.

-- The bytes that an entry into a handler pushes. Emulation mode leaves K out.
def handlerFrame (interrupt : Interrupt) (r : Registers) (resume : UInt16) : List UInt8 :=
  let bytes := [Word.high resume, Word.low resume, pushedStatus interrupt r]
  if r.emulation then bytes else r.k :: bytes

theorem pushByte_flat (value : UInt8) (machine : Machine FlatMemory) :
    pushByte value machine = (.ok (), machine.push [value]) :=
  rfl

theorem pushWord_flat (value : UInt16) (machine : Machine FlatMemory) :
    pushWord value machine = (.ok (), machine.push [Word.high value, Word.low value]) :=
  rfl

theorem loadVector_flat (interrupt : Interrupt) (emulation : Bool) (machine : Machine FlatMemory) :
    let vector : Address := ⟨0, interrupt.vector emulation⟩
    loadVector interrupt emulation machine =
      (.ok (), { machine with registers :=
        { machine.registers with
          pc := Word.join (machine.memory.byte vector)
            (machine.memory.byte (vector.advance 1)) } }) :=
  rfl

theorem enterHandler_flat (interrupt : Interrupt) (machine : Machine FlatMemory) :
    let after := machine.push (handlerFrame interrupt machine.registers machine.registers.pc)
    ∃ p pc cycles, enterHandler interrupt machine =
      (.ok (), { after with registers := { after.registers with p, k := 0, pc }, cycles }) := by
  rw [enterHandler, registers_bind_apply, handlerFrame]
  by_cases hem : machine.registers.emulation = true
  · rw [if_pos hem, if_pos hem]
    dsimp only
    rw [bind_of_ok (pushWord_flat ..), bind_of_ok (pushByte_flat ..),
      bind_of_ok (modifyRegisters_apply ..), bind_of_ok (loadVector_flat ..)]
    simp only [Machine.push_push, List.cons_append, List.nil_append]
    exact ⟨_, _, _, rfl⟩
  · rw [if_neg hem, if_neg hem]
    dsimp only
    rw [bind_of_ok (pushByte_flat ..), bind_of_ok (pushWord_flat ..), bind_of_ok (pushByte_flat ..),
      bind_of_ok (modifyRegisters_apply ..), bind_of_ok (loadVector_flat ..)]
    simp only [Machine.push_push, List.cons_append, List.nil_append]
    exact ⟨_, _, _, rfl⟩

-- Entering a handler always succeeds.
theorem enter_flat {interrupt : Interrupt} (hinterrupt : interrupt ≠ .reset)
    (machine : Machine FlatMemory) (hwidths : machine.registers.WidthsAgree) :
    let r := machine.registers
    let frame := handlerFrame interrupt r r.pc
    ∃ p pc cycles, enter interrupt machine =
      (.ok (), { machine with
        registers :=
          { r with
            s := Stack.below r.emulation r.s frame.length
            p, k := 0, pc }
        memory := machine.memory.push r.emulation r.s 0 frame
        cycles }) := by
  intro r frame
  have henter : enter interrupt machine = enterHandler interrupt machine := by
    cases interrupt with
    | reset => exact absurd rfl hinterrupt
    | nmi | abort | irq | brk | cop => rfl
  obtain ⟨p, pc, cycles, hentered⟩ := enterHandler_flat interrupt machine
  rw [henter, hentered, Machine.push_eq hwidths]
  exact ⟨p, pc, cycles, rfl⟩

theorem call_flat (instruction : Instruction) (machine : Machine FlatMemory) :
    call instruction machine = jump instruction
      (machine.push [Word.high (machine.registers.pc - 1), Word.low (machine.registers.pc - 1)]) :=
  rfl

theorem callLong_flat (instruction : Instruction) (machine : Machine FlatMemory) :
    callLong instruction machine = jumpLong instruction
      (machine.push [machine.registers.k, Word.high (machine.registers.pc - 1),
        Word.low (machine.registers.pc - 1)]) :=
  rfl

-- What pulls.

section Pull

variable {machine : Machine FlatMemory} {s : UInt16} {count : Nat}

theorem pullByte_flat
    (hs : machine.registers.s = Stack.below machine.registers.emulation s (count + 1)) :
    pullByte machine =
      (.ok (machine.memory.byte (Stack.cell machine.registers.emulation s count)),
        { machine with registers :=
          { machine.registers with s := Stack.below machine.registers.emulation s count } }) := by
  have hup := machine.registers.stackUp_below s count hs
  rw [pullByte, bind_of_ok (modifyRegisters_apply ..), hup]
  rfl

theorem pullWord_flat
    (hs : machine.registers.s = Stack.below machine.registers.emulation s (count + 2)) :
    pullWord machine =
      (.ok (Word.join
          (machine.memory.byte (Stack.cell machine.registers.emulation s (count + 1)))
          (machine.memory.byte (Stack.cell machine.registers.emulation s count))),
        { machine with registers :=
          { machine.registers with s := Stack.below machine.registers.emulation s count } }) := by
  rw [pullWord, bind_of_ok (pullByte_flat hs), bind_of_ok (pullByte_flat rfl)]
  rfl

theorem returnNear_flat {high low : UInt8}
    (hs : machine.registers.s = Stack.below machine.registers.emulation s 2)
    (hholds : machine.memory.Holds machine.registers.emulation s 0 [high, low]) :
    returnNear machine =
      (.ok (), { machine with registers :=
        { machine.registers with
          s := Stack.below machine.registers.emulation s 0
          pc := Word.join low high + 1 } }) := by
  obtain ⟨hhigh, hlow, -⟩ := hholds
  rw [returnNear, bind_of_ok (pullWord_flat hs), hlow, hhigh]
  rfl

theorem returnLong_flat {bank high low : UInt8}
    (hs : machine.registers.s = Stack.below machine.registers.emulation s 3)
    (hholds : machine.memory.Holds machine.registers.emulation s 0 [bank, high, low]) :
    returnLong machine =
      (.ok (), { machine with registers :=
        { machine.registers with
          s := Stack.below machine.registers.emulation s 0
          k := bank
          pc := Word.join low high + 1 } }) := by
  obtain ⟨hbank, hhigh, hlow, -⟩ := hholds
  rw [returnLong, bind_of_ok (pullWord_flat hs), hlow, hhigh, bind_of_ok (pullByte_flat rfl), hbank]
  rfl

-- The status comes first, and emulation mode has no bank to pull.
theorem returnInterrupt_emulation {high low status : UInt8} {p : Status}
    (hem : machine.registers.emulation = true)
    (hs : machine.registers.s = Stack.below machine.registers.emulation s 3)
    (hholds : machine.memory.Holds machine.registers.emulation s 0 [high, low, status])
    (hset : ∀ s', { machine.registers with s := s' }.setStatus ⟨status⟩ =
      { machine.registers with s := s', p }) :
    returnInterrupt machine =
      (.ok (), { machine with registers :=
        { machine.registers with
          s := Stack.below machine.registers.emulation s 0
          p
          pc := Word.join low high } }) := by
  obtain ⟨hhigh, hlow, hstatus, -⟩ := hholds
  rw [returnInterrupt, bind_of_ok (pullByte_flat hs), hstatus,
    bind_of_ok (modifyRegisters_apply ..), hset, bind_of_ok (pullWord_flat rfl), hlow, hhigh,
    bind_of_ok (modifyRegisters_apply ..), registers_bind_apply, if_pos hem]
  rfl

theorem returnInterrupt_native {bank high low status : UInt8} {p : Status}
    (hem : machine.registers.emulation = false)
    (hs : machine.registers.s = Stack.below machine.registers.emulation s 4)
    (hholds : machine.memory.Holds machine.registers.emulation s 0 [bank, high, low, status])
    (hset : ∀ s', { machine.registers with s := s' }.setStatus ⟨status⟩ =
      { machine.registers with s := s', p }) :
    returnInterrupt machine =
      (.ok (), { machine with
        registers :=
          { machine.registers with
            s := Stack.below machine.registers.emulation s 0
            p
            k := bank
            pc := Word.join low high }
        cycles := machine.cycles + 1 }) := by
  obtain ⟨hbank, hhigh, hlow, hstatus, -⟩ := hholds
  have hne : ¬machine.registers.emulation = true := by rw [hem]; exact Bool.false_ne_true
  rw [returnInterrupt, bind_of_ok (pullByte_flat hs), hstatus,
    bind_of_ok (modifyRegisters_apply ..), hset, bind_of_ok (pullWord_flat rfl), hlow, hhigh,
    bind_of_ok (modifyRegisters_apply ..), registers_bind_apply, if_neg hne,
    bind_of_ok (pullByte_flat rfl), hbank]
  rfl

end Pull

-- In emulation mode the pulled status has both widths set, as they were.
theorem setStatus_pushedStatus {r other : Registers} (hwidths : r.WidthsAgree)
    (kind : Interrupt) (hem : other.emulation = r.emulation) (hx : other.x = r.x)
    (hy : other.y = r.y) : other.setStatus ⟨pushedStatus kind r⟩ = { other with p := r.p } := by
  have hstatus : (if other.emulation = true then
      ((⟨pushedStatus kind r⟩ : Status).put .narrowAccumulator true).put .narrowIndex true
      else ⟨pushedStatus kind r⟩) = r.p := by
    rw [hem]
    by_cases hemulation : r.emulation = true
    · obtain ⟨hm, hi⟩ := hwidths.narrow hemulation
      rw [if_pos hemulation, pushedStatus, if_pos hemulation]
      exact Status.put_widths_putMask_break hm hi _
    · rw [if_neg hemulation, pushedStatus, if_neg hemulation]
  simp only [Registers.setStatus, hstatus]
  split
  · rename_i hnarrow
    rw [hx, hy, Word.lowByte_eq_self (hwidths.indexX hnarrow),
      Word.lowByte_eq_self (hwidths.indexY hnarrow), ← hx, ← hy]
  · rfl

-- RTI undoes an entry. In emulation mode the bank stays as the handler left it.
theorem returnInterrupt_handlerFrame {r : Registers} {kind : Interrupt} {resume : UInt16}
    {p : Status} {k : UInt8} {pc : UInt16} (machine : Machine FlatMemory)
    (hwidths : r.WidthsAgree)
    (hregisters : machine.registers =
      { r with
        s := Stack.below r.emulation r.s (handlerFrame kind r resume).length
        p, k, pc })
    (hholds : machine.memory.Holds r.emulation r.s 0 (handlerFrame kind r resume)) :
    ∃ cycles, returnInterrupt machine =
      (.ok (), { machine with
        registers := { r with pc := resume, k := if r.emulation then k else r.k }
        cycles }) := by
  obtain ⟨registers, interrupts, memory, cycles⟩ := machine
  obtain rfl : registers = _ := hregisters
  have htop := Stack.below_zero hwidths.page
  have hset (s' : UInt16) :
      { r with s := s', p, k, pc }.setStatus ⟨pushedStatus kind r⟩ = { r with s := s', k, pc } :=
    setStatus_pushedStatus hwidths kind rfl rfl rfl
  by_cases hem : r.emulation = true
  · have hframe : handlerFrame kind r resume =
      [Word.high resume, Word.low resume, pushedStatus kind r] := if_pos hem
    rw [hframe] at hholds
    rw [hframe, if_pos hem, returnInterrupt_emulation hem rfl hholds hset, htop,
      Word.join_low_high]
    exact ⟨cycles, rfl⟩
  · have hframe : handlerFrame kind r resume =
      [r.k, Word.high resume, Word.low resume, pushedStatus kind r] := if_neg hem
    have hnative : r.emulation = false := by simpa using hem
    rw [hframe] at hholds
    rw [hframe, if_neg hem, returnInterrupt_native hnative rfl hholds hset, htop,
      Word.join_low_high]
    exact ⟨cycles + 1, rfl⟩

-- What only reads.

theorem loadsAlike_flat (memory : FlatMemory) :
    LoadsAlike fun one other : FlatMemory => one = other ∧ one = memory where
  loaded _ _ _ hsame := by
    obtain ⟨rfl, rfl⟩ := hsame
    exact ⟨rfl, rfl, rfl⟩

-- Reading changes neither the registers nor a flat memory.
theorem same_of_reading {α : Type} {work : Execution FlatMemory α} (machine : Machine FlatMemory)
    (hwork : Matched (Alike (fun r => r = machine.registers)
      fun one other => one = other ∧ one = machine.memory) work work) :
    (work machine).2.registers = machine.registers ∧ (work machine).2.memory = machine.memory := by
  have hafter := (hwork machine machine ⟨rfl, rfl, rfl, rfl, rfl, rfl⟩).2
  exact ⟨hafter.kept, hafter.memory.2⟩

theorem fetch_flat {table : OpcodeTable} {machine fetched : Machine FlatMemory}
    {instruction : Instruction} (hfetch : fetch table machine = (.ok instruction, fetched)) :
    fetched.memory = machine.memory ∧
      fetched.registers = { machine.registers with
        pc := machine.registers.pc +
          (instruction.operation.size machine.registers.p).toUInt16 } := by
  have hload : loadByte ⟨machine.registers.k, machine.registers.pc⟩ machine =
      (.ok (machine.memory.byte ⟨machine.registers.k, machine.registers.pc⟩), machine) := rfl
  rw [fetch, registers_bind_apply, bind_of_ok hload] at hfetch
  cases hget : table.get? (machine.memory.byte ⟨machine.registers.k, machine.registers.pc⟩) with
  | none =>
      rw [hget] at hfetch
      cases hfetch
  | some operation =>
      obtain ⟨hregisters, hmemory⟩ := same_of_reading machine
        ((loadsAlike_flat machine.memory).decodeOperand
          ⟨machine.registers.k, machine.registers.pc⟩ operation.mode)
      simp only [hget] at hfetch
      obtain ⟨operand, decoded, hdecode, hfetched⟩ := of_bind_ok hfetch
      rw [hdecode] at hregisters hmemory
      cases hfetched
      refine ⟨hmemory, ?_⟩
      rw [← hregisters]

-- Looking for a target leaves no trace.
theorem locateAddress_flat {instruction : Instruction} {machine located : Machine FlatMemory}
    {target : Address} (hlocate : locateAddress instruction machine = (.ok target, located)) :
    located.memory = machine.memory ∧ located.registers = machine.registers := by
  obtain ⟨hregisters, hmemory⟩ := same_of_reading machine
    ((loadsAlike_flat machine.memory).locateAddress instruction)
  rw [hlocate] at hregisters hmemory
  exact ⟨hmemory, hregisters⟩

theorem jump_flat {instruction : Instruction} {machine finished : Machine FlatMemory}
    (hjump : jump instruction machine = (.ok (), finished)) :
    finished.memory = machine.memory ∧
      ∃ pc, finished.registers = { machine.registers with pc } := by
  obtain ⟨target, located, hlocate, hjumped⟩ := of_bind_ok hjump
  obtain ⟨hmemory, hregisters⟩ := locateAddress_flat hlocate
  cases hjumped
  exact ⟨hmemory, target.offset, by rw [← hregisters]⟩

theorem jumpLong_flat {instruction : Instruction} {machine finished : Machine FlatMemory}
    (hjump : jumpLong instruction machine = (.ok (), finished)) :
    finished.memory = machine.memory ∧
      ∃ k pc, finished.registers = { machine.registers with k, pc } := by
  obtain ⟨target, located, hlocate, hjumped⟩ := of_bind_ok hjump
  obtain ⟨hmemory, hregisters⟩ := locateAddress_flat hlocate
  cases hjumped
  exact ⟨hmemory, target.bank, target.offset, by rw [← hregisters]⟩

end Execution

end Console816
