import Console816.Proofs.Instruction.Matrix
import Console816.Proofs.Processor.Operands
import Console816.Proofs.Processor.Turns

namespace Console816

namespace Action

-- Whether it can work on what the mode gives.
def admits : Action → Mode → Bool
  | add, mode | subtract, mode | conjoin, mode | disjoin, mode | exclude, mode | compare _, mode
  | testBits, mode | load _, mode => mode.kind.isData
  | putBits _, mode | shift _, mode | step _, mode => mode.kind.isPlace
  | store _, mode | storeZero, mode | pushAddress, mode | branch _ _, mode | jump, mode
  | jumpLong, mode | call, mode | callLong, mode => mode.kind == .address
  | blockMove _, mode => mode.kind == .banks
  | putStatus _, mode => mode == .byteConstant
  | _, _ => true

-- The width of the data that it reads and leaves there.
def readWidth (r : Registers) : Action → Option Width
  | add | subtract | conjoin | disjoin | exclude | testBits => some r.accumulatorWidth
  | compare register | load register => some (r.dataWidth register)
  | _ => none

-- What it writes without having read it.
def written (r : Registers) : Action → Option (Width × UInt16)
  | store register => some (r.dataWidth register, r.data register)
  | storeZero => some (r.accumulatorWidth, 0)
  | _ => none

-- What it makes of the data that it reads and replaces. Such data has the width of A.
def changed (r : Registers) : Action → Option (UInt16 → UInt16)
  | putBits value => some fun old =>
    let bits := r.accumulatorWidth.truncate r.a
    if value then old ||| bits else old &&& ~~~bits
  | shift kind => some fun old => kind.value r.accumulatorWidth (r.p.has .carry) old
  | step delta => some (· + delta)
  | _ => none

-- It has no business with memory.
def isSilent : Action → Bool
  | stepIndex _ _ | copy _ _ | copyWord _ _ | copyToStack _ | swapBytes | putFlag _ _ | putStatus _
  | exchangeEmulation | wait | stop | nothing => true
  | _ => false

end Action

theorem OpcodeTable.matrix_admits :
    (matrix.toList.all fun row => row.1.action.admits row.2.1) = true := by
  decide +kernel

theorem OpcodeTable.admits_of_standard {opcode : UInt8} {operation : Operation}
    (hget : standard.get? opcode = some operation) :
    operation.mnemonic.action.admits operation.mode = true :=
  List.all_eq_true.mp matrix_admits _ (row_of_standard hget).2

namespace Registers

-- The bytes of the return address that a call pushes.
def returnBytes (r : Registers) : List UInt8 := [Word.high (r.pc - 1), Word.low (r.pc - 1)]

def pushedBytes (r : Registers) (source : Pushed) : List UInt8 :=
  ((r.pushed source).2.encode (r.pushed source).1).reverse

-- PC has moved past the instruction.
def past (r : Registers) (operation : Operation) : Registers :=
  { r with pc := r.pc + (operation.size r.p).toUInt16 }

-- The loads and stores of a block move, until the bytes run out.
def moves (target source : UInt8) (delta : UInt16) (r : Registers) : List UInt8 → List Access
  | [] => []
  | value :: values =>
    .load ⟨source, r.x⟩ (.ok value) :: .store ⟨target, r.y⟩ value (.ok ()) ::
      moves target source delta (r.moveOn delta) values

end Registers

namespace Execution

-- What an instruction does to memory once it has been read, and where its pushes leave S.
inductive Performs (r : Registers) (operand : Operand) : Action → List Access → Registers → Prop
  | reads {action : Action} {width : Width} {pointer loaded : List Access} {location : Location}
      {value : UInt16} {after : Registers} (hwidth : action.readWidth r = some width)
      (hlocates : operand.Locates r pointer location)
      (hholds : location.Holds r width value loaded) :
      Performs r operand action (pointer ++ loaded) after
  | writes {action : Action} {width : Width} {value : UInt16} {pointer : List Access}
      {address : Address} {after : Registers} (hwritten : action.written r = some (width, value))
      (hfinds : operand.Finds r pointer address) :
      Performs r operand action (pointer ++ address.stores (width.encode value)) after
  | changes {action : Action} {change : UInt16 → UInt16} {pointer loaded : List Access}
      {location : Location} {value : UInt16} {after : Registers}
      (hchanged : action.changed r = some change) (hlocates : operand.Locates r pointer location)
      (hholds : location.Holds r r.accumulatorWidth value loaded) :
      Performs r operand action
        (pointer ++ (loaded ++ location.stores r.accumulatorWidth (change value))) after
  | moves {target source : UInt8} {delta : UInt16} {bytes : List UInt8} {after : Registers}
      (hoperand : operand = .blockMove target source) (hcount : bytes.length = r.a.toNat + 1) :
      Performs r operand (.blockMove delta)
        ({ r with dbr := target }.moves target source delta bytes) after
  | pushes {source : Pushed} {after : Registers}
      (hs : after.s = (r.afterPushes (r.pushedBytes source)).s) :
      Performs r operand (.push source) (r.pushes (r.pushedBytes source)) after
  | pushesAddress {pointer : List Access} {address : Address} {after : Registers}
      (hfinds : operand.Finds r pointer address)
      (hs : after.s = (r.afterPushes [address.high, address.low]).s) :
      Performs r operand .pushAddress (pointer ++ r.pushes [address.high, address.low]) after
  | pulls {target : Pulled} {bytes : List UInt8} {after : Registers}
      (hcount : bytes.length = (r.pulledWidth target).bytes) :
      Performs r operand (.pull target) (r.pulls bytes) after
  | branches {condition : Condition} {extra : Nat} {pointer : List Access} {target : Address}
      {after : Registers} (hfinds : operand.Finds r pointer target) :
      Performs r operand (.branch condition extra) pointer after
  | jumps {pointer : List Access} {target : Address} {after : Registers}
      (hfinds : operand.Finds r pointer target) : Performs r operand .jump pointer after
  | jumpsLong {pointer : List Access} {target : Address} {after : Registers}
      (hfinds : operand.Finds r pointer target) : Performs r operand .jumpLong pointer after
  -- the target of a call is looked up after the return address has been pushed
  | calls {pointer : List Access} {target : Address} {after : Registers}
      (hfinds : operand.Finds (r.afterPushes r.returnBytes) pointer target)
      (hs : after.s = (r.afterPushes r.returnBytes).s) :
      Performs r operand .call (r.pushes r.returnBytes ++ pointer) after
  | callsLong {pointer : List Access} {target : Address} {after : Registers}
      (hfinds : operand.Finds (r.afterPushes (r.k :: r.returnBytes)) pointer target)
      (hs : after.s = (r.afterPushes (r.k :: r.returnBytes)).s) :
      Performs r operand .callLong (r.pushes (r.k :: r.returnBytes) ++ pointer) after
  | returnsNear (low high : UInt8) {after : Registers} :
      Performs r operand .returnNear (r.pulls [low, high]) after
  | returnsLong (low high bank : UInt8) {after : Registers} :
      Performs r operand .returnLong (r.pulls [low, high, bank]) after
  | returnsInterrupt {bytes : List UInt8} {after : Registers}
      (hcount : bytes.length = if r.emulation then 3 else 4) :
      Performs r operand .returnInterrupt (r.pulls bytes) after
  | raises {interrupt : Interrupt} {low high : UInt8} {after : Registers}
      (hinterrupt : interrupt ≠ .reset)
      (hs : after.s = (r.afterPushes (handlerFrame interrupt r r.pc)).s) :
      Performs r operand (.raise interrupt) (entryAccesses interrupt r low high) after
  | silent {action : Action} {after : Registers} (hsilent : action.isSilent = true) :
      Performs r operand action [] after

-- Where the next instruction will be, when PC has moved past this one. It is right there, unless
-- the instruction goes elsewhere. Of the long ways, RTI takes one in native mode only.
def Lands (r : Registers) (operand : Operand) (after : Registers) : Action → Prop
  | .branch condition _ => after.k = r.k ∧ ∃ pointer target, operand.Finds r pointer target ∧
      after.pc = if condition.holds r.p then target.offset else r.pc
  | .jump | .call | .returnNear => after.k = r.k
  | .returnInterrupt => r.emulation = true → after.k = r.k
  | .jumpLong | .callLong | .returnLong | .raise _ => True
  | _ => r.SameCode after

-- The course of an action: what it does to memory and where it goes on.
def Does (r : Registers) (operand : Operand) (action : Action) : Course Unit :=
  fun _ after made => Performs r operand action made after ∧ Lands r operand after action

variable {μ : Type} [Memory μ]

namespace Takes

variable {r : Registers} {instruction : Instruction}

theorem readThen {action : Action} {width : Width} (hwidth : action.readWidth r = some width)
    (hdata : instruction.operand.kind.isData = true)
    {change : UInt16 → Location → Registers → Registers} {cycles : Nat}
    (hlands : ∀ value location, Lands r instruction.operand (change value location r) action) :
    Takes (do
        let location ← Execution.locate instruction
        let value ← Execution.read location width
        Execution.modifyRegisters (change value location)
        Execution.chargeWord width cycles : Execution (AccessLog μ) Unit) r
      (Does r instruction.operand action) := by
  refine (locate hdata).bind ?_
  rintro location _ pointer ⟨rfl, hlocates⟩
  refine (read location width).bind ?_
  rintro value _ loaded ⟨rfl, hholds⟩
  refine modifyRegisters_bind (charge ?_)
  rw [List.append_nil]
  exact ⟨.reads hwidth hlocates hholds, hlands value location⟩

theorem storeValue {action : Action} {width : Width} {value : UInt16}
    (hwritten : action.written r = some (width, value))
    (hkind : instruction.operand.kind = .address)
    (hlands : Lands r instruction.operand r action) :
    Takes (storeValue width value instruction : Execution (AccessLog μ) Unit) r
      (Does r instruction.operand action) := by
  refine (locate (by rw [hkind]; rfl)).bind ?_
  rintro location _ pointer ⟨rfl, hlocates⟩
  obtain ⟨address, rfl, hfinds⟩ := hlocates.finds hkind
  refine (store address value width).bind ?_
  rintro _ _ _ ⟨rfl, rfl⟩
  refine charge ?_
  rw [List.append_nil]
  exact ⟨.writes hwritten hfinds, hlands⟩

theorem putBits (value : Bool) (hplace : instruction.operand.kind.isPlace = true) :
    Takes (putBits value instruction : Execution (AccessLog μ) Unit) r
      (Does r instruction.operand (.putBits value)) := by
  refine registers_bind ((locate (Operand.Kind.isData_of_isPlace hplace)).bind ?_)
  rintro location _ pointer ⟨rfl, hlocates⟩
  refine (read location _).bind ?_
  rintro old ahead loaded ⟨rfl, hholds⟩
  refine modifyRegisters_bind ((write _ (hlocates.not_constant hplace) _ _).bind ?_)
  rintro _ after _ ⟨hsame, rfl⟩
  have hperforms : Performs ahead instruction.operand (.putBits value) _ after :=
    .changes rfl hlocates hholds
  exact charge (by rw [List.append_nil]; exact ⟨hperforms, hsame.pc, hsame.k⟩)

theorem change {f : Width → UInt16 → Status → UInt16 × Status} {action : Action}
    (hchanged : action.changed r = some fun old => (f r.accumulatorWidth old r.p).1)
    (hplace : instruction.operand.kind.isPlace = true)
    (hlands : ∀ after, r.SameCode after → Lands r instruction.operand after action) :
    Takes (change f instruction : Execution (AccessLog μ) Unit) r
      (Does r instruction.operand action) := by
  refine registers_bind ((locate (Operand.Kind.isData_of_isPlace hplace)).bind ?_)
  rintro location _ pointer ⟨rfl, hlocates⟩
  refine (read location _).bind ?_
  rintro old ahead loaded ⟨rfl, hholds⟩
  refine registers_bind (modifyRegisters_bind
    ((write _ (hlocates.not_constant hplace) _ _).bind ?_))
  rintro _ after _ ⟨hsame, rfl⟩
  have hdoes : Does ahead instruction.operand action () after _ :=
    ⟨.changes hchanged hlocates hholds, hlands after ⟨hsame.pc, hsame.k⟩⟩
  split
  · exact .pure (by rw [List.append_nil]; exact hdoes)
  · exact charge (by rw [List.append_nil]; exact hdoes)

theorem shift (kind : Shift) (hplace : instruction.operand.kind.isPlace = true) :
    Takes (shift kind instruction : Execution (AccessLog μ) Unit) r
      (Does r instruction.operand (.shift kind)) := by
  unfold Execution.shift
  refine change ?_ hplace fun _ hsame => hsame
  rfl

theorem step (delta : UInt16) (hplace : instruction.operand.kind.isPlace = true) :
    Takes (step delta instruction : Execution (AccessLog μ) Unit) r
      (Does r instruction.operand (.step delta)) := by
  unfold Execution.step
  refine change ?_ hplace fun _ hsame => hsame
  rfl

theorem moveNext (target source : UInt8) (delta : UInt16) (first : Bool) :
    Takes (moveNext target source delta first : Execution (AccessLog μ) Bool) r
      fun _ after made => after = r.moveOn delta ∧
        ∃ value, made = [.load ⟨source, r.x⟩ (.ok value), .store ⟨target, r.y⟩ value (.ok ())] := by
  have hbyte : Takes (moveByte target source delta : Execution (AccessLog μ) Unit) r
      fun _ after made => after = r.moveOn delta ∧
        ∃ value, made = [.load ⟨source, r.x⟩ (.ok value), .store ⟨target, r.y⟩ value (.ok ())] := by
    refine registers_bind ((loadByte _).bind ?_)
    rintro value _ _ ⟨rfl, rfl⟩
    refine (storeByte _ value).bind ?_
    rintro _ _ _ ⟨rfl, rfl⟩
    exact modifyRegisters ⟨rfl, value, by simp⟩
  refine hbyte.bind ?_
  rintro _ _ _ ⟨rfl, value, rfl⟩
  cases first with
  | true => exact registers_bind (.pure ⟨rfl, value, rfl⟩)
  | false => exact charge_bind (registers_bind (.pure ⟨rfl, value, rfl⟩))

theorem moveFurther (target source : UInt8) (delta : UInt16) (count : Nat) :
    Takes (moveFurther target source delta count : Execution (AccessLog μ) Unit) r
      fun _ after made => r.SameCode after ∧ ∃ bytes : List UInt8,
        bytes.length = count ∧ made = r.moves target source delta bytes := by
  induction count generalizing r with
  | zero => exact .pure ⟨.refl r, [], rfl, rfl⟩
  | succ count ih =>
      refine (moveNext target source delta false).bind ?_
      rintro _ _ _ ⟨rfl, value, rfl⟩
      refine ih.mono ?_
      rintro _ _ _ ⟨hsame, bytes, hlength, rfl⟩
      exact ⟨⟨hsame.pc, hsame.k⟩, value :: bytes, congrArg (· + 1) hlength, rfl⟩

theorem push (source : Pushed) :
    Takes (push source : Execution (AccessLog μ) Unit) r
      (Does r instruction.operand (.push source)) := by
  have hwide : Takes (pushWide (r.pushed source).1 (r.pushed source).2 :
      Execution (AccessLog μ) Unit) r fun _ after made =>
        after = r.afterPushes (r.pushedBytes source) ∧ made = r.pushes (r.pushedBytes source) := by
    unfold Registers.pushedBytes
    cases (r.pushed source).2 with
    | byte => exact pushByte _
    | word => exact pushWord _
  refine registers_bind (hwide.bind ?_)
  rintro _ _ _ ⟨rfl, rfl⟩
  have hdoes : Does r instruction.operand (.push source) ()
      (r.afterPushes (r.pushedBytes source)) (r.pushes (r.pushedBytes source) ++ []) := by
    rw [List.append_nil]
    exact ⟨.pushes rfl, r.sameCode_afterPushes _⟩
  cases source with
  | data => exact charge hdoes
  | direct | dataBank | programBank | status => exact .pure hdoes

theorem pull (target : Pulled) :
    Takes (pull target : Execution (AccessLog μ) Unit) r
      (Does r instruction.operand (.pull target)) := by
  have hwide : Takes (pullWide (r.pulledWidth target) : Execution (AccessLog μ) UInt16) r
      fun _ after made => r.SameCode after ∧ ∃ bytes : List UInt8,
        bytes.length = (r.pulledWidth target).bytes ∧ made = r.pulls bytes := by
    cases r.pulledWidth target with
    | byte =>
        refine pullByte.bind ?_
        rintro value _ _ ⟨rfl, rfl⟩
        exact .pure ⟨⟨rfl, rfl⟩, [value], rfl, List.append_nil _⟩
    | word =>
        refine pullWord.mono ?_
        rintro value _ _ ⟨rfl, rfl⟩
        exact ⟨⟨rfl, rfl⟩, [Word.low value, Word.high value], rfl, rfl⟩
  refine registers_bind (hwide.bind ?_)
  rintro value ahead _ ⟨hsame, bytes, hcount, rfl⟩
  have hdoes : Does r instruction.operand (.pull target) () (ahead.assignPulled value target)
      (r.pulls bytes ++ []) := by
    rw [List.append_nil]
    exact ⟨.pulls hcount, hsame.trans (ahead.sameCode_assignPulled value target)⟩
  refine modifyRegisters_bind ?_
  cases target with
  | data => exact charge hdoes
  | direct | dataBank | status => exact .pure hdoes

theorem pushAddress (hkind : instruction.operand.kind = .address) :
    Takes (pushAddress instruction : Execution (AccessLog μ) Unit) r
      (Does r instruction.operand .pushAddress) := by
  refine (locateAddress hkind).bind ?_
  rintro address _ pointer ⟨rfl, hfinds⟩
  refine (pushWord _).mono ?_
  rintro _ _ _ ⟨rfl, rfl⟩
  exact ⟨.pushesAddress hfinds rfl, Registers.sameCode_afterPushes _ _⟩

theorem branch (condition : Condition) (extra : Nat)
    (hkind : instruction.operand.kind = .address) :
    Takes (branch condition extra instruction : Execution (AccessLog μ) Unit) r
      (Does r instruction.operand (.branch condition extra)) := by
  refine registers_bind ((locateAddress hkind).bind ?_)
  rintro target ahead pointer ⟨rfl, hfinds⟩
  have hperforms (after : Registers) :
      Performs ahead instruction.operand (.branch condition extra) (pointer ++ []) after := by
    rw [List.append_nil]
    exact .branches hfinds
  split
  case isTrue htaken =>
      exact modifyRegisters_bind
        (charge ⟨hperforms _, rfl, pointer, target, hfinds, (if_pos htaken).symm⟩)
  case isFalse hnot =>
      exact .pure ⟨hperforms _, rfl, pointer, target, hfinds, (if_neg hnot).symm⟩

-- Jumps differ in what they do with the target.
theorem jumpTo (hkind : instruction.operand.kind = .address)
    {change : Address → Registers → Registers} {course : Course Unit}
    (hcourse : ∀ target pointer, instruction.operand.Finds r pointer target →
      course () (change target r) pointer) :
    Takes (do
        let target ← Execution.locateAddress instruction
        Execution.modifyRegisters (change target) : Execution (AccessLog μ) Unit) r course := by
  refine (locateAddress hkind).bind ?_
  rintro target _ pointer ⟨rfl, hfinds⟩
  exact modifyRegisters (by rw [List.append_nil]; exact hcourse target pointer hfinds)

theorem call (hkind : instruction.operand.kind = .address) :
    Takes (call instruction : Execution (AccessLog μ) Unit) r
      (Does r instruction.operand .call) := by
  refine registers_bind ((pushWord _).bind ?_)
  rintro _ _ _ ⟨rfl, rfl⟩
  exact jumpTo hkind fun target pointer hfinds =>
    ⟨.calls hfinds rfl, (r.sameCode_afterPushes _).k⟩

theorem callLong (hkind : instruction.operand.kind = .address) :
    Takes (callLong instruction : Execution (AccessLog μ) Unit) r
      (Does r instruction.operand .callLong) := by
  refine registers_bind ((pushByte _).bind ?_)
  rintro _ _ _ ⟨rfl, rfl⟩
  refine (pushWord _).bind ?_
  rintro _ _ _ ⟨rfl, rfl⟩
  refine jumpTo hkind fun target pointer hfinds => ?_
  exact ⟨.callsLong hfinds rfl, trivial⟩

theorem returnNear :
    Takes (returnNear : Execution (AccessLog μ) Unit) r
      (Does r instruction.operand .returnNear) := by
  refine pullWord.bind ?_
  rintro last _ _ ⟨rfl, rfl⟩
  exact modifyRegisters (by rw [List.append_nil]; exact ⟨.returnsNear _ _, rfl⟩)

theorem returnLong :
    Takes (returnLong : Execution (AccessLog μ) Unit) r
      (Does r instruction.operand .returnLong) := by
  refine pullWord.bind ?_
  rintro last _ _ ⟨rfl, rfl⟩
  refine pullByte.bind ?_
  rintro bank _ _ ⟨rfl, rfl⟩
  exact modifyRegisters (by rw [List.append_nil]; exact ⟨.returnsLong _ _ bank, trivial⟩)

-- Native mode pulls K after the rest.
theorem pullBank :
    Takes (do
        unless (← Execution.registers).emulation do
          let bank ← Execution.pullByte
          Execution.modifyRegisters ({ · with k := bank })
          Execution.charge 1 : Execution (AccessLog μ) Unit) r fun _ after made =>
      (r.emulation = true → after.k = r.k) ∧ ∃ bytes : List UInt8,
        bytes.length = (if r.emulation then 0 else 1) ∧ made = r.pulls bytes := by
  refine registers_bind ?_
  by_cases hem : r.emulation = true
  · rw [if_pos hem, if_pos hem]
    exact .pure ⟨fun _ => rfl, [], rfl, rfl⟩
  · rw [if_neg hem, if_neg hem]
    refine pullByte.bind ?_
    rintro bank _ _ ⟨rfl, rfl⟩
    refine modifyRegisters_bind (charge ⟨fun h => absurd h hem, [bank], rfl, List.append_nil _⟩)

theorem returnInterrupt :
    Takes (returnInterrupt : Execution (AccessLog μ) Unit) r
      (Does r instruction.operand .returnInterrupt) := by
  refine pullByte.bind ?_
  rintro p _ _ ⟨rfl, rfl⟩
  refine modifyRegisters_bind (pullWord.bind ?_)
  rintro pc _ _ ⟨rfl, rfl⟩
  refine modifyRegisters_bind (pullBank.mono ?_)
  rintro _ after _ ⟨hbank, bytes, hcount, rfl⟩
  -- the new status leaves S and E as they were
  have hemulation : (r.stackUp.setStatus ⟨p⟩).emulation = r.emulation :=
    Registers.setStatus_emulation ..
  have hpulls (values : List UInt8) :
      r.stackUp.pulls values = (r.stackUp.setStatus ⟨p⟩).pulls values :=
    Registers.pulls_congr (Registers.setStatus_s ..).symm hemulation.symm values
  have hmade : r.pulls (p :: Word.low pc :: Word.high pc :: bytes) =
      r.pulls [p] ++ ((r.stackUp.setStatus ⟨p⟩).pulls [Word.low pc, Word.high pc] ++
        (r.stackUp.setStatus ⟨p⟩).stackUp.stackUp.pulls bytes) := by
    rw [Registers.pulls_cons, hpulls]
    rfl
  have hcount : bytes.length = if (r.stackUp.setStatus ⟨p⟩).emulation then 0 else 1 := hcount
  have hbank : (r.stackUp.setStatus ⟨p⟩).emulation = true →
      after.k = (r.stackUp.setStatus ⟨p⟩).k := hbank
  rw [hemulation] at hcount hbank
  rw [Registers.pulls_pc _ pc bytes, ← hmade]
  refine ⟨.returnsInterrupt ?_, fun hem => (hbank hem).trans ?_⟩
  · simp only [List.length_cons, hcount]
    split <;> rfl
  · exact (Registers.sameCode_setStatus _ _).k

theorem blockMove {target source : UInt8}
    (hoperand : instruction.operand = .blockMove target source) (delta : UInt16) :
    Takes (blockMove delta instruction : Execution (AccessLog μ) Unit) r
      (Does r instruction.operand (.blockMove delta)) := by
  rw [blockMove_eq, hoperand]
  refine registers_bind (modifyRegisters_bind ((moveNext _ _ _ _).bind ?_))
  rintro _ _ _ ⟨rfl, value, rfl⟩
  refine (moveFurther _ _ _ _).mono ?_
  rintro _ after _ ⟨hsame, bytes, hcount, rfl⟩
  have hall : (value :: bytes).length = r.a.toNat + 1 := congrArg (· + 1) hcount
  exact ⟨.moves rfl hall, hsame.pc, hsame.k⟩

omit [Memory μ] in
theorem putStatus {mask : UInt8} (hoperand : instruction.operand = .byteConstant mask)
    (value : Bool) :
    Takes (putStatus value instruction : Execution (AccessLog μ) Unit) r
      (Does r instruction.operand (.putStatus value)) := by
  unfold Execution.putStatus
  rw [hoperand]
  exact modifyRegisters ⟨.silent rfl, r.sameCode_setStatus _⟩

theorem raise {interrupt : Interrupt} (hinterrupt : interrupt ≠ .reset) :
    Takes (Execution.enter interrupt : Execution (AccessLog μ) Unit) r
      (Does r instruction.operand (.raise interrupt)) := by
  refine (enter interrupt).mono ?_
  rintro _ after _ ⟨low, high, -, -, hs, rfl⟩
  exact ⟨.raises hinterrupt (hs hinterrupt), trivial⟩

omit [Memory μ] in
-- Instructions that keep to the registers.
theorem silent {action : Action} (hsilent : action.isSilent = true)
    {change : Registers → Registers} (hlands : Lands r instruction.operand (change r) action) :
    Takes (Execution.modifyRegisters change : Execution (AccessLog μ) Unit) r
      (Does r instruction.operand action) :=
  modifyRegisters ⟨.silent hsilent, hlands⟩

omit [Memory μ] in
theorem wait :
    Takes (wait : Execution (AccessLog μ) Unit) r (Does r instruction.operand .wait) := by
  refine registers_bind ?_
  split
  · exact .pure ⟨.silent rfl, .refl r⟩
  · exact modifyInterrupts ⟨.silent rfl, .refl r⟩

-- No action meets an operand that it cannot use.
theorem perform {p : Status} {mode : Mode} {action : Action} (hadmits : action.admits mode = true)
    (hdecodes : mode.Decodes p instruction.operand) (hreset : action ≠ .raise .reset) :
    Takes (perform instruction action : Execution (AccessLog μ) Unit) r
      (Does r instruction.operand action) := by
  have hkind := Mode.kind_eq_of_decodes hdecodes
  have hof {kind : Operand.Kind} (hmode : (mode.kind == kind) = true) :
      instruction.operand.kind = kind := hkind.trans (eq_of_beq hmode)
  cases action with
  | add => exact registers_bind (readThen rfl (hkind ▸ hadmits) fun _ _ => ⟨rfl, rfl⟩)
  | subtract => exact registers_bind (readThen rfl (hkind ▸ hadmits) fun _ _ => ⟨rfl, rfl⟩)
  | conjoin | disjoin | exclude =>
      exact registers_bind (readThen rfl (hkind ▸ hadmits) fun _ _ => r.sameCode_assign .a _)
  | compare =>
      exact registers_bind (readThen rfl (hkind ▸ hadmits) fun _ _ => ⟨rfl, rfl⟩)
  | testBits =>
      exact registers_bind (readThen rfl (hkind ▸ hadmits) fun _ _ => r.sameCode_testBits ..)
  | load register =>
      exact registers_bind (readThen rfl (hkind ▸ hadmits) fun _ _ => r.sameCode_assign register _)
  | putBits value => exact putBits value (hkind ▸ hadmits)
  | shift kind => exact shift kind (hkind ▸ hadmits)
  | step delta => exact step delta (hkind ▸ hadmits)
  | store register => exact registers_bind (storeValue rfl (hof hadmits) (.refl r))
  | storeZero => exact registers_bind (storeValue rfl (hof hadmits) (.refl r))
  | stepIndex => exact silent rfl (r.sameCode_stepData ..)
  | copy => exact silent rfl (r.sameCode_assign ..)
  | copyWord => exact silent rfl (r.sameCode_assignWord ..)
  | copyToStack | swapBytes | putFlag => exact silent rfl ⟨rfl, rfl⟩
  | exchangeEmulation => exact silent rfl r.sameCode_exchangeEmulation
  | blockMove delta =>
      obtain ⟨target, source, hoperand⟩ := Operand.exists_of_banks (hof hadmits)
      exact blockMove hoperand delta
  | push source => exact push source
  | pull target => exact pull target
  | pushAddress => exact pushAddress (hof hadmits)
  | branch condition extra => exact branch condition extra (hof hadmits)
  | jump => exact jumpTo (hof hadmits) fun _ _ hfinds => ⟨.jumps hfinds, rfl⟩
  | jumpLong => exact jumpTo (hof hadmits) fun _ _ hfinds => ⟨.jumpsLong hfinds, trivial⟩
  | call => exact call (hof hadmits)
  | callLong => exact callLong (hof hadmits)
  | returnNear => exact returnNear
  | returnLong => exact returnLong
  | returnInterrupt => exact returnInterrupt
  | raise interrupt => exact raise fun heq => hreset (congrArg Action.raise heq)
  | putStatus value =>
      obtain ⟨mask, hoperand⟩ := Mode.exists_of_byteConstant (eq_of_beq hadmits ▸ hdecodes)
      exact putStatus hoperand value
  | wait => exact wait
  | stop => exact modifyInterrupts ⟨.silent rfl, .refl r⟩
  | nothing => exact .pure ⟨.silent rfl, .refl r⟩

theorem fetch {table : OpcodeTable}
    (htable : ∀ opcode, ∃ operation, table.get? opcode = some operation) :
    Takes (fetch table : Execution (AccessLog μ) Instruction) r fun instruction after made =>
      ∃ opcode, table.get? opcode = some instruction.operation ∧
        instruction.operation.mode.Decodes r.p instruction.operand ∧
        after = r.past instruction.operation ∧
        made = Address.loads ⟨r.k, r.pc⟩ (opcode :: instruction.operand.encoding) := by
  refine registers_bind ((loadByte _).bind ?_)
  rintro opcode _ _ ⟨rfl, rfl⟩
  obtain ⟨operation, hget⟩ := htable opcode
  simp only [hget]
  refine (decodeOperand _ _).bind ?_
  rintro operand _ _ ⟨rfl, hdecodes, rfl⟩
  exact modifyRegisters_bind (.pure ⟨opcode, hget, hdecodes, rfl, by simp⟩)

end Takes

-- One instruction, from its opcode on.
def dispatch (table : OpcodeTable) : Execution μ Unit := do
  run (← fetch table)

-- What dispatching an instruction does to memory. The opcode is at K:PC and its operand bytes
-- follow there. PC has moved past them by the time that the instruction begins to act.
structure Executes (table : OpcodeTable) (r : Registers) (operation : Operation)
    (operand : Operand) (rest made : List Access) (after : Registers) : Prop where
  code : ∃ opcode, table.get? opcode = some operation ∧
    made = Address.loads ⟨r.k, r.pc⟩ (opcode :: operand.encoding) ++ rest
  decodes : operation.mode.Decodes r.p operand
  performs : Performs (r.past operation) operand operation.mnemonic.action rest after

theorem Takes.dispatch_lands (r : Registers) :
    Takes (dispatch .standard : Execution (AccessLog μ) Unit) r fun _ after made =>
      ∃ operation operand rest, Executes .standard r operation operand rest made after ∧
        Lands (r.past operation) operand after operation.mnemonic.action := by
  refine (fetch OpcodeTable.exists_of_standard).bind ?_
  rintro ⟨operation, opcodeAt, operand⟩ _ _ ⟨opcode, hopcode, hdecodes, rfl, rfl⟩
  have hadmits := OpcodeTable.admits_of_standard hopcode
  refine charge_bind ((perform hadmits hdecodes ?_).mono ?_)
  · intro hreset
    rcases Mnemonic.raised_cases hreset with h | h <;> cases h
  · exact fun _ after rest ⟨hperforms, hlands⟩ =>
      ⟨operation, operand, rest, ⟨⟨opcode, hopcode, rfl⟩, hdecodes, hperforms⟩, hlands⟩

theorem Takes.dispatch (r : Registers) :
    Takes (dispatch .standard : Execution (AccessLog μ) Unit) r fun _ after made =>
      ∃ operation operand rest, Executes .standard r operation operand rest made after :=
  (dispatch_lands r).mono fun _ _ _ ⟨operation, operand, rest, hexecutes, _⟩ =>
    ⟨operation, operand, rest, hexecutes⟩

theorem Lockstep.dispatch {μ ν : Type} [Memory μ] [Memory ν] {kept : Registers → Prop}
    {related : μ → ν → Prop} (lockstep : Lockstep kept related) (table : OpcodeTable) :
    Matched (Alike kept related) (dispatch table) (dispatch table) :=
  (lockstep.fetch table).bind fun instruction => lockstep.run instruction

theorem Lockstep.proceed {μ ν : Type} [Memory μ] [Memory ν] {kept : Registers → Prop}
    {related : μ → ν → Prop} (lockstep : Lockstep kept related) (table : OpcodeTable) :
    Matched (Alike kept related) (proceed table) (proceed table) := by
  refine Matched.isHalted.bind fun halted => ?_
  cases halted with
  | true => exact .pure ()
  | false => exact lockstep.dispatch table

-- What the instruction of a tick does to memory, if it comes to one.
def dispatchAccesses (table : OpcodeTable) (machine : Machine μ) : List Access :=
  match acknowledge machine with
  | (.error _, _) => []
  | (.ok _, entered) =>
    if entered.interrupts.isHalted then [] else accesses (dispatch table) entered

theorem accesses_proceed (table : OpcodeTable) (machine : Machine μ) :
    accesses (proceed table) machine =
      if machine.interrupts.isHalted then [] else accesses (dispatch table) machine := by
  obtain ⟨registers, interrupts, memory, cycles⟩ := machine
  have hproceed := isHalted_apply
    (⟨registers, interrupts, ⟨memory, #[]⟩, cycles⟩ : Machine (AccessLog μ))
  rw [accesses, proceed, bind_of_ok hproceed]
  cases interrupts.isHalted with
  | true => rfl
  | false => rfl

theorem accesses_tick (table : OpcodeTable) (machine : Machine μ) :
    accesses (tick table) machine =
      accesses acknowledge machine ++ dispatchAccesses table machine := by
  have hsame := (lockstep_log (μ := μ)).acknowledge
  rw [tick_eq, dispatchAccesses]
  rcases hentry : acknowledge machine with ⟨answer, entered⟩
  cases answer with
  | error error =>
      rw [accesses_bind_of_error hsame hentry, List.append_nil]
  | ok taken =>
      rw [accesses_bind_of_ok hsame (fun _ before => (lockstep_appended before).proceed table)
        hentry, accesses_proceed]

-- Whatever registers and memory are, the accesses of an instruction are those that it is made for,
-- each in the bank where it belongs. The first that fails is the last.
theorem accesses_dispatch (machine : Machine μ) :
    Follows
      (fun _ after made =>
        ∃ operation operand rest,
          Executes .standard machine.registers operation operand rest made after)
      (dispatch .standard machine).1 (dispatch .standard machine).2.registers
      (accesses (dispatch .standard) machine) :=
  (Takes.dispatch machine.registers).follows machine (lockstep_log.dispatch .standard)

end Execution

end Console816
