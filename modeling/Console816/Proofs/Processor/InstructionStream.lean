import Console816.Proofs.Processor.Footprints

namespace Console816

namespace Mode

variable {p : Status} {mode : Mode} {operand : Operand}

-- An operand is read from as many bytes as the size of its instruction has room for.
theorem length_encoding (hdecodes : mode.Decodes p operand) :
    operand.encoding.length = mode.operandBytesFor p := by
  cases operand with
  | constant =>
      rcases hdecodes with ⟨rfl, hwidth⟩ | ⟨rfl, hwidth⟩ <;>
        simp only [operandBytesFor, hwidth] <;> rfl
  | byteConstant =>
      rcases hdecodes with rfl | ⟨rfl, hwidth⟩ | ⟨rfl, hwidth⟩
      · rfl
      · simp only [operandBytesFor, hwidth]
        rfl
      · simp only [operandBytesFor, hwidth]
        rfl
  | _ =>
      cases hdecodes
      rfl

end Mode

namespace Operand

-- The distance that the operand bytes of a branch stand for. The highest bit is the sign.
def distance : List UInt8 → Int
  | [low] => Int.bmod low.toNat 0x100
  | [low, high] => Int.bmod (low.toNat + high.toNat * 0x100) 0x10000
  | _ => 0

private theorem bmod_toUInt8 (displacement : Int8) :
    Int.bmod displacement.toUInt8.toNat 0x100 = displacement.toInt :=
  (BitVec.toInt_eq_toNat_bmod displacement.toBitVec).symm

private theorem bmod_toUInt16 (displacement : Int16) :
    Int.bmod displacement.toUInt16.toNat 0x10000 = displacement.toInt :=
  (BitVec.toInt_eq_toNat_bmod displacement.toBitVec).symm

private theorem toNat_add_displacement (pc : UInt16) (displacement : Int16) :
    ((pc + displacement.toUInt16).toNat : Int) =
      (pc.toNat + displacement.toInt) % 0x10000 := by
  have hmod : Int.bmod displacement.toUInt16.toNat 0x10000 % 0x10000 =
      (displacement.toUInt16.toNat : Int) % 0x10000 := Int.bmod_emod
  rw [bmod_toUInt16] at hmod
  rw [UInt16.toNat_add]
  omega

theorem distance_relative (displacement : Int8) :
    distance (relative displacement).encoding = displacement.toInt :=
  bmod_toUInt8 displacement

theorem distance_relativeLong (displacement : Int16) :
    distance (relativeLong displacement).encoding = displacement.toInt := by
  have hlow := Word.toNat_low displacement.toUInt16
  have hhigh := Word.toNat_high displacement.toUInt16
  have hsum : ((Word.low displacement.toUInt16).toNat : Int) +
      (Word.high displacement.toUInt16).toNat * 0x100 = displacement.toUInt16.toNat := by
    omega
  unfold encoding distance
  dsimp only
  rw [hsum, bmod_toUInt16]

-- The target of a branch is that far from where PC is.
theorem Finds.offset_of_relative {r : Registers} {p : Status} {mode : Mode} {operand : Operand}
    {pointer : List Access} {target : Address} (hfinds : operand.Finds r pointer target)
    (hdecodes : mode.Decodes p operand) (hmode : mode = .relative ∨ mode = .relativeLong) :
    (target.offset.toNat : Int) = (r.pc.toNat + distance operand.encoding) % 0x10000 := by
  cases hfinds with
  | relative displacement =>
      rw [distance_relative, ← displacement.toInt_toInt16]
      exact toNat_add_displacement r.pc displacement.toInt16
  | relativeLong displacement =>
      rw [distance_relativeLong]
      exact toNat_add_displacement r.pc displacement
  | _ => rcases hmode with rfl | rfl <;> cases hdecodes

end Operand

namespace Mnemonic

-- Whether a branch is taken, of those that are branches.
def branches? (p : Status) : Mnemonic → Option Bool
  | bcc => some !p.has .carry
  | bcs => some (p.has .carry)
  | bne => some !p.has .zero
  | beq => some (p.has .zero)
  | bpl => some !p.has .negative
  | bmi => some (p.has .negative)
  | bvc => some !p.has .overflow
  | bvs => some (p.has .overflow)
  | bra | brl => some true
  | _ => none

-- Jumps, calls, returns and the interrupts that a program raises itself.
def goesElsewhere : Mnemonic → Bool
  | jmp | jml | jsr | jsl | rts | rtl | rti | brk | cop => true
  | _ => false

-- Those of them that set K. RTI pulls it in native mode only.
def leavesBank (emulation : Bool) : Mnemonic → Bool
  | jml | jsl | rtl | brk | cop => true
  | rti => !emulation
  | _ => false

variable {p : Status} {mnemonic : Mnemonic}

theorem action_of_branches {taken : Bool} (hbranches : mnemonic.branches? p = some taken) :
    ∃ condition extra, mnemonic.action = .branch condition extra ∧ condition.holds p = taken := by
  cases mnemonic <;> simp only [branches?, Option.some.injEq, reduceCtorEq] at hbranches <;>
    exact ⟨_, _, rfl, by simp [Condition.holds, ← hbranches]⟩

end Mnemonic

-- Branches are relative in the whole instruction set.
theorem OpcodeTable.matrix_branches :
    (matrix.toList.all fun row =>
      match row.1.action with
      | .branch _ _ => row.2.1 == .relative || row.2.1 == .relativeLong
      | _ => true) = true := by
  decide +kernel

theorem OpcodeTable.mode_of_branch {opcode : UInt8} {operation : Operation}
    {condition : Condition} {extra : Nat} (hget : standard.get? opcode = some operation)
    (hbranch : operation.mnemonic.action = .branch condition extra) :
    operation.mode = .relative ∨ operation.mode = .relativeLong := by
  have hrow := List.all_eq_true.mp matrix_branches _ (row_of_standard hget).2
  simpa [hbranch] using hrow

-- PC moves past an instruction inside of the bank.
theorem Registers.toNat_past (r : Registers) (operation : Operation) :
    (r.past operation).pc.toNat = (r.pc.toNat + operation.size r.p) % 0x10000 := by
  have hsize : (operation.size r.p).toUInt16.toNat = operation.size r.p % 0x10000 :=
    UInt16.toNat_ofNat'
  rw [past, UInt16.toNat_add, hsize]
  omega

namespace Execution

-- Where an instruction goes on, told by its mnemonic.

section Lands

variable {r after : Registers} {operand : Operand} {mnemonic : Mnemonic}
  (hlands : Lands r operand after mnemonic.action)
include hlands

theorem Lands.same (hbranches : mnemonic.branches? r.p = none)
    (hstraight : mnemonic.goesElsewhere = false) : r.SameCode after := by
  revert hlands
  cases haction : mnemonic.action with
  | branch => cases mnemonic <;> cases haction <;> cases hbranches
  | jump | jumpLong | call | callLong | returnNear | returnLong | returnInterrupt | raise =>
      cases mnemonic <;> cases haction <;> cases hstraight
  | _ => exact id

theorem Lands.bank (hbank : mnemonic.leavesBank r.emulation = false) : after.k = r.k := by
  revert hlands
  cases haction : mnemonic.action with
  | branch => exact fun hlands => hlands.1
  | jump | call | returnNear => exact id
  | returnInterrupt =>
      cases mnemonic <;> cases haction
      exact fun hlands => hlands (by simpa [Mnemonic.leavesBank] using hbank)
  | jumpLong | callLong | returnLong | raise => cases mnemonic <;> cases haction <;> cases hbank
  | _ => exact fun hlands => hlands.k

end Lands

-- Where an instruction leaves PC and K.
structure GoesOn (r : Registers) (operation : Operation) (operand : Operand)
    (after : Registers) : Prop where
  straight : operation.mnemonic.branches? r.p = none → operation.mnemonic.goesElsewhere = false →
    after.pc.toNat = (r.pc.toNat + operation.size r.p) % 0x10000 ∧ after.k = r.k
  branch : ∀ taken, operation.mnemonic.branches? r.p = some taken →
    (after.pc.toNat : Int) =
        (r.pc.toNat + operation.size r.p +
          if taken then Operand.distance operand.encoding else 0) % 0x10000 ∧
      after.k = r.k
  bank : operation.mnemonic.leavesBank r.emulation = false → after.k = r.k

theorem goesOn_of_lands {r after : Registers} {opcode : UInt8} {operation : Operation}
    {operand : Operand} (hget : OpcodeTable.standard.get? opcode = some operation)
    (hdecodes : operation.mode.Decodes r.p operand)
    (hlands : Lands (r.past operation) operand after operation.mnemonic.action) :
    GoesOn r operation operand after where
  straight hbranches hstraight := by
    have hsame := hlands.same hbranches hstraight
    exact ⟨(congrArg UInt16.toNat hsame.pc).trans (r.toNat_past operation), hsame.k⟩
  branch taken hbranches := by
    obtain ⟨condition, extra, haction, hholds⟩ := Mnemonic.action_of_branches hbranches
    have hmode := OpcodeTable.mode_of_branch hget haction
    rw [haction] at hlands
    obtain ⟨hk, pointer, target, hfinds, hpc⟩ := hlands
    have htarget := hfinds.offset_of_relative hdecodes hmode
    have hpast := r.toNat_past operation
    have hholds : condition.holds (r.past operation).p = taken := hholds
    refine ⟨?_, hk⟩
    rw [hpc, hholds]
    cases taken with
    | false =>
        simp only [Bool.false_eq_true, if_false]
        omega
    | true =>
        simp only [if_true]
        omega
  bank hbank := hlands.bank hbank

-- What is left of a dispatch from given registers, once the operation is known.
def carryOut {μ : Type} [Memory μ] (operation : Operation) (r : Registers) :
    Execution μ Unit := do
  let operand ← decodeOperand ⟨r.k, r.pc⟩ operation.mode
  modifyRegisters ({ · with pc := r.pc + (operation.size r.p).toUInt16 })
  run ⟨operation, ⟨r.k, r.pc⟩, operand⟩

theorem Lockstep.carryOut {μ ν : Type} [Memory μ] [Memory ν] {kept : Registers → Prop}
    {related : μ → ν → Prop} (lockstep : Lockstep kept related) (operation : Operation)
    (r : Registers) :
    Matched (Alike kept related) (carryOut operation r) (carryOut operation r) :=
  (lockstep.decodeOperand _ _).bind fun _ =>
    (lockstep.composes.modifyRegisters (.counter _)).bind fun _ => lockstep.run _

variable {μ : Type} [Memory μ]

section Known

variable {table : OpcodeTable} {operation : Operation} {machine : Machine μ} {opcode : UInt8}
  {left : μ} (hget : table.get? opcode = some operation)
  (hload : Memory.load ⟨machine.registers.k, machine.registers.pc⟩ machine.memory =
    (.ok opcode, left))
include hget hload

theorem dispatch_known :
    dispatch table machine =
      carryOut operation machine.registers { machine with memory := left } := by
  have hopcode : loadByte ⟨machine.registers.k, machine.registers.pc⟩ machine =
      (.ok opcode, { machine with memory := left }) := by
    rw [loadByte, hload]
  simp only [dispatch, fetch, bind_assoc]
  rw [registers_bind_apply, bind_of_ok hopcode, hget, carryOut]
  simp only [bind_assoc, pure_bind]

theorem accesses_dispatch_known :
    accesses (dispatch table) machine =
      .load ⟨machine.registers.k, machine.registers.pc⟩ (.ok opcode) ::
        accesses (carryOut operation machine.registers) { machine with memory := left } := by
  obtain ⟨registers, interrupts, memory, cycles⟩ := machine
  have hrest := (lockstep_appended [.load ⟨registers.k, registers.pc⟩ (.ok opcode)]).carryOut
    operation registers
    ⟨registers, interrupts, ⟨left, #[.load ⟨registers.k, registers.pc⟩ (.ok opcode)]⟩, cycles⟩
    ⟨registers, interrupts, ⟨left, #[]⟩, cycles⟩ ⟨rfl, rfl, rfl, trivial, rfl, rfl⟩
  rw [accesses, dispatch_known hget (load_log hload)]
  exact hrest.2.memory.2

end Known

-- The operand bytes come first.
theorem accesses_carryOut (operation : Operation) (machine : Machine μ)
    (hmemory : NeverFails machine.memory) :
    ∃ operand rest, operation.mode.Decodes machine.registers.p operand ∧
      accesses (carryOut operation machine.registers) machine =
        (Address.advance ⟨machine.registers.k, machine.registers.pc⟩ 1).loads operand.encoding ++
          rest := by
  have hlog := Lockstep.composes (lockstep_log (μ := μ))
  obtain ⟨operand, after, hdecode, -, hdecodes, hmade⟩ :=
    Takes.completes (hlog.decodeOperand _ _) (lockstep_sound.decodeOperand _ _)
      (Takes.decodeOperand ⟨machine.registers.k, machine.registers.pc⟩ operation.mode) hmemory
  obtain ⟨rest, hrest⟩ : ∃ rest, accesses (carryOut operation machine.registers) machine =
      accesses (decodeOperand ⟨machine.registers.k, machine.registers.pc⟩ operation.mode) machine ++
        rest :=
    ⟨_, accesses_bind_of_ok (hlog.decodeOperand _ _) (fun _ before =>
      ((lockstep_appended before).composes.modifyRegisters (.counter _)).bind fun _ =>
        (lockstep_appended before).run _) hdecode⟩
  rw [hmade] at hrest
  exact ⟨operand, rest, hdecodes, hrest⟩

-- An instruction is read first. Its opcode is at K:PC, and its operand bytes follow there. They are
-- as many as its size has room for.
structure ReadFirst (r : Registers) (opcode : UInt8) (operation : Operation) (operand : Operand)
    (made : List Access) : Prop where
  decodes : operation.mode.Decodes r.p operand
  size : operand.encoding.length + 1 = operation.size r.p
  accesses : ∃ rest, made = Address.loads ⟨r.k, r.pc⟩ (opcode :: operand.encoding) ++ rest

-- How a machine goes through its code.
structure FollowsCode (machine : Machine μ) (opcode : UInt8) : Prop where
  found : (Memory.load ⟨machine.registers.k, machine.registers.pc⟩ machine.memory).1 = .ok opcode
  unknown : ∀ table : OpcodeTable, table.get? opcode = none →
    (dispatch table machine).1 =
        .error (.unknownOpcode opcode ⟨machine.registers.k, machine.registers.pc⟩) ∧
      accesses (dispatch table) machine =
        [.load ⟨machine.registers.k, machine.registers.pc⟩ (.ok opcode)]
  known : ∀ (table : OpcodeTable) (operation : Operation), table.get? opcode = some operation →
    ∃ operand, ReadFirst machine.registers opcode operation operand
      (accesses (dispatch table) machine)
  standard : ∃ operation operand after,
    OpcodeTable.standard.get? opcode = some operation ∧
      dispatch .standard machine = (.ok (), after) ∧
      ReadFirst machine.registers opcode operation operand
        (accesses (dispatch .standard) machine) ∧
      GoesOn machine.registers operation operand after.registers
  -- in a tick, an interrupt sets K as well
  bank : (tick .standard machine).2.registers.k = machine.registers.k ∨
    (∃ interrupt,
      (machine.interrupts.poll (machine.registers.p.has .irqDisable)).1 = some interrupt) ∨
    ∃ operation, OpcodeTable.standard.get? opcode = some operation ∧
      operation.mnemonic.leavesBank machine.registers.emulation = true

theorem size_of_decodes {r : Registers} {operation : Operation} {operand : Operand}
    (hdecodes : operation.mode.Decodes r.p operand) :
    operand.encoding.length + 1 = operation.size r.p := by
  rw [Mode.length_encoding hdecodes]
  exact Nat.add_comm _ 1

section Follows

variable (machine : Machine μ) (hmemory : NeverFails machine.memory) {opcode : UInt8} {left : μ}
  (hload : Memory.load ⟨machine.registers.k, machine.registers.pc⟩ machine.memory =
    (.ok opcode, left))
include hmemory hload

theorem readFirst {table : OpcodeTable} {operation : Operation}
    (hget : table.get? opcode = some operation) :
    ∃ operand, ReadFirst machine.registers opcode operation operand
      (accesses (dispatch table) machine) := by
  have hleft := (hmemory.load ⟨machine.registers.k, machine.registers.pc⟩).2
  rw [hload] at hleft
  obtain ⟨operand, rest, hdecodes, hmade⟩ :=
    accesses_carryOut operation { machine with memory := left } hleft
  refine ⟨operand, hdecodes, size_of_decodes hdecodes, rest, ?_⟩
  rw [accesses_dispatch_known hget hload, hmade, Address.loads_cons, List.cons_append]

theorem dispatch_goesOn :
    ∃ operation operand after, OpcodeTable.standard.get? opcode = some operation ∧
      dispatch .standard machine = (.ok (), after) ∧
      ReadFirst machine.registers opcode operation operand
        (accesses (dispatch .standard) machine) ∧
      GoesOn machine.registers operation operand after.registers := by
  obtain ⟨_, after, hdispatch, operation, operand, rest, hexecutes, hlands⟩ :=
    Takes.completes (lockstep_log.dispatch .standard) (lockstep_sound.dispatch .standard)
      (Takes.dispatch_lands machine.registers) hmemory
  obtain ⟨found, hfound, hmade⟩ := hexecutes.code
  -- what is at K:PC is what has been found there
  obtain ⟨known, hknown⟩ := OpcodeTable.exists_of_standard opcode
  have hsame : found = opcode := by
    rw [accesses_dispatch_known hknown hload, Address.loads_cons, List.cons_append] at hmade
    have hfirst := (List.cons.inj hmade).1
    exact (Except.ok.inj (Access.load.inj hfirst).2).symm
  subst hsame
  exact ⟨operation, operand, after, hfound, hdispatch,
    ⟨hexecutes.decodes, size_of_decodes hexecutes.decodes, rest, hmade⟩,
    goesOn_of_lands hfound hexecutes.decodes hlands⟩

theorem tick_bank :
    (tick .standard machine).2.registers.k = machine.registers.k ∨
      (∃ interrupt,
        (machine.interrupts.poll (machine.registers.p.has .irqDisable)).1 = some interrupt) ∨
      ∃ operation, OpcodeTable.standard.get? opcode = some operation ∧
        operation.mnemonic.leavesBank machine.registers.emulation = true := by
  rcases hpoll : machine.interrupts.poll (machine.registers.p.has .irqDisable) with
    ⟨taken, interrupts⟩
  cases taken with
  | some interrupt => exact .inr (.inl ⟨interrupt, rfl⟩)
  | none =>
      rw [tick_eq, bind_of_ok (acknowledge_none hpoll)]
      cases hhalted : interrupts.isHalted with
      | true =>
          rw [proceed, bind_of_ok (isHalted_apply _), hhalted]
          exact .inl rfl
      | false =>
          rw [proceed_of_running hhalted]
          obtain ⟨operation, _, after, hget, hdispatch, -, hgoes⟩ :=
            dispatch_goesOn { machine with interrupts } hmemory hload
          have hafter : ((fetch .standard >>= fun instruction => run instruction)
              { machine with interrupts }) = (.ok (), after) := hdispatch
          rw [hafter]
          cases hleaves : operation.mnemonic.leavesBank machine.registers.emulation with
          | true => exact .inr (.inr ⟨operation, hget, hleaves⟩)
          | false => exact .inl (hgoes.bank hleaves)

end Follows

-- What is read as an instruction, what its size is and how far PC moves always agree.
theorem follows_code {machine : Machine μ} (hmemory : NeverFails machine.memory) :
    ∃ opcode, FollowsCode machine opcode := by
  obtain ⟨opcode, hopcode⟩ :=
    (hmemory.load ⟨machine.registers.k, machine.registers.pc⟩).1
  have hload : Memory.load ⟨machine.registers.k, machine.registers.pc⟩ machine.memory =
      (.ok opcode, _) := Prod.ext hopcode rfl
  exact ⟨opcode,
    { found := hopcode
      unknown := fun table hget =>
        ⟨by rw [dispatch_unknown hget hload], accesses_dispatch_unknown hget hload⟩
      known := fun table operation hget => readFirst machine hmemory hload hget
      standard := dispatch_goesOn machine hmemory hload
      bank := tick_bank machine hmemory hload }⟩

-- A branch back, across the start of the bank.
theorem follows_code_bra :
    let machine : Machine FlatMemory := ⟨.powerOn, {}, ⟨fun _ => 0x80⟩, 0⟩
    NeverFails machine.memory ∧ (∃ opcode, FollowsCode machine opcode) ∧
      (accesses (dispatch .standard) machine).map Access.address = [⟨0, 0⟩, ⟨0, 1⟩] ∧
      (dispatch .standard machine).2.registers.pc = 0xFF82 := by
  intro machine
  have hmemory : NeverFails machine.memory := neverFails_flat _
  exact ⟨hmemory, follows_code hmemory, by decide +kernel, by decide +kernel⟩

end Execution

end Console816
