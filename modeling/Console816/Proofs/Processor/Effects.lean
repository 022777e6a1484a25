import Console816.Processor
import Console816.Proofs.Processor.MoveLoop
import Console816.Proofs.Registers.Changes

namespace Console816

namespace Registers

-- The same registers in native mode.
def native (r : Registers) : Registers := { r with emulation := false }

-- Data and widths are seen alike in both modes.

theorem dataWidth_native (r : Registers) (register : DataRegister) :
    r.native.dataWidth register = r.dataWidth register := by
  cases register <;> rfl

theorem data_native (r : Registers) (register : DataRegister) :
    r.native.data register = r.data register := by
  cases register <;> rfl

theorem word_native (r : Registers) (register : WordRegister) :
    r.native.word register = r.word register := by
  cases register <;> rfl

theorem pushed_native (r : Registers) (source : Pushed) :
    r.native.pushed source = r.pushed source := by
  cases source with
  | data register => cases register <;> rfl
  | direct | dataBank | programBank | status => rfl

theorem pulledWidth_native (r : Registers) (target : Pulled) :
    r.native.pulledWidth target = r.pulledWidth target := by
  cases target with
  | data register => exact r.dataWidth_native register
  | direct | dataBank | status => rfl

theorem penalty_native (r : Registers) (operand : Operand) :
    operand.penalty r.native = operand.penalty r := by
  cases operand <;> rfl

end Registers

namespace Action

def Pushes : Action → Prop
  | push _ | pushAddress | call | callLong => True
  | _ => False

def Pulls : Action → Prop
  | pull _ | returnNear | returnLong => True
  | _ => False

-- The register whose data is replaced as a whole.
def assigned? : Action → Option DataRegister
  | conjoin | disjoin | exclude => some .a
  | load target | copy target _ => some target
  | _ => none

-- The width of the data that is written where the operand says.
def writtenWidth? (r : Registers) : Action → Option Width
  | putBits _ | shift _ | step _ | storeZero => some r.accumulatorWidth
  | store register => some (r.dataWidth register)
  | _ => none

-- What an action that begins with the registers `r` may do to the registers in one go, apart from
-- moving the stack. The widths are those of `r`. Bytes from memory may be anything.
inductive Makes (r : Registers) (operand : Operand) : Action → (Registers → Registers) → Prop
  | counter {action : Action} (pc : UInt16) : Makes r operand action fun r' => { r' with pc }
  | longCounter {action : Action} (k : UInt8) (pc : UInt16) :
      Makes r operand action fun r' => { r' with k, pc }
  | sum (value : UInt16) : Makes r operand .add fun r' =>
      { r' with
        p := (Arithmetic.addWithCarry r.accumulatorWidth r'.a value r'.p).2
        a := r.accumulatorWidth.merge r'.a
          (Arithmetic.addWithCarry r.accumulatorWidth r'.a value r'.p).1 }
  | difference (value : UInt16) : Makes r operand .subtract fun r' =>
      { r' with
        p := (Arithmetic.subtractWithBorrow r.accumulatorWidth r'.a value r'.p).2
        a := r.accumulatorWidth.merge r'.a
          (Arithmetic.subtractWithBorrow r.accumulatorWidth r'.a value r'.p).1 }
  | comparison (register : DataRegister) (value : UInt16) :
      Makes r operand (.compare register) fun r' =>
        { r' with p := Arithmetic.compare (r.dataWidth register) (r'.data register) value r'.p }
  | testBits (value : UInt16) (isConstant : Bool) :
      Makes r operand .testBits fun r' => r'.testBits r.accumulatorWidth value isConstant
  | assign {action : Action} {target : DataRegister} (hassigned : action.assigned? = some target)
      (value : Registers → UInt16) (hvalue : ∀ r', value r'.native = value r') :
      Makes r operand action fun r' => r'.assign target (value r')
  | zero (bits isZero : Bool) :
      Makes r operand (.putBits bits) fun r' => { r' with p := r'.p.put .zero isZero }
  | shift (kind : Shift) (old : UInt16) : Makes r operand (.shift kind) fun r' =>
      { r' with
        p := (r'.p.put .carry (kind.carryOut r.accumulatorWidth old)).describe r.accumulatorWidth
          (kind.value r.accumulatorWidth (r'.p.has .carry) old) }
  | step (delta value : UInt16) : Makes r operand (.step delta) fun r' =>
      { r' with p := r'.p.describe r.accumulatorWidth value }
  | accumulator {action : Action} {width : Width} (hwidth : action.writtenWidth? r = some width)
      (hoperand : operand = .accumulator) (value : UInt16) :
      Makes r operand action fun r' => { r' with a := width.merge r'.a value }
  | stepIndex (register : DataRegister) (delta : UInt16) :
      Makes r operand (.stepIndex register delta) fun r' => r'.stepData register delta
  | copyWord (target source : WordRegister) :
      Makes r operand (.copyWord target source) fun r' => r'.assignWord target (r'.word source)
  | copyToStack (source : WordRegister) :
      Makes r operand (.copyToStack source) fun r' => r'.assignStack (r'.word source)
  | swapBytes : Makes r operand .swapBytes Registers.swapBytes
  | dataBank (delta : UInt16) (dbr : UInt8) :
      Makes r operand (.blockMove delta) fun r' => { r' with dbr }
  | moveOn (delta : UInt16) : Makes r operand (.blockMove delta) fun r' => r'.moveOn delta
  | pulled (target : Pulled) (value : UInt16) :
      Makes r operand (.pull target) fun r' => r'.assignPulled value target
  | flag (flag : Flag) (value : Bool) :
      Makes r operand (.putFlag flag value) fun r' => { r' with p := r'.p.put flag value }
  | status (mask : UInt8) (value : Bool) :
      Makes r operand (.putStatus value) fun r' => r'.putStatus mask value
  | exchangeEmulation : Makes r operand .exchangeEmulation Registers.exchangeEmulation

end Action

namespace Execution

variable {μ ν : Type} [Memory μ] [Memory ν]

-- A relation between pieces of work on two memories that holds of what reaches for bytes if it
-- holds of the parts. Of a single piece it may say anything as well, since the other may be
-- ignored.
structure ComposesBytes (related : ∀ {α : Type}, Execution μ α → Execution ν α → Prop) :
    Prop where
  pure {α : Type} (value : α) : related (pure value) (pure value)
  bind {α β : Type} {first : Execution μ α} {first' : Execution ν α} {next : α → Execution μ β}
    {next' : α → Execution ν β} (hfirst : related first first')
    (hnext : ∀ value, related (next value) (next' value)) :
    related (first >>= next) (first' >>= next')
  loadByte (address : Address) : related (loadByte address) (loadByte address)

-- The same for what reads registers as well, of which something may be known. The two sides may
-- differ in E, so that only work that does not ask for it is the same on both.
structure TracksReads (known : Registers → Prop)
    (related : ∀ {α : Type}, Execution μ α → Execution ν α → Prop) : Prop
    extends ComposesBytes related where
  registers_bind {β : Type} {next : Registers → Execution μ β} {next' : Registers → Execution ν β}
    (hblind : ∀ r, next' r.native = next' r) (hnext : ∀ r, known r → related (next r) (next' r)) :
    related (registers >>= next) (registers >>= next')

-- The same for what changes memory, and registers as far as that is allowed.
structure TracksStores (known : Registers → Prop) (allowed : (Registers → Registers) → Prop)
    (related : ∀ {α : Type}, Execution μ α → Execution ν α → Prop) : Prop
    extends TracksReads known related where
  modifyRegisters {change : Registers → Registers} (hallowed : allowed change) :
    related (modifyRegisters change) (modifyRegisters change)
  storeByte (address : Address) (value : UInt8) :
    related (storeByte address value) (storeByte address value)

-- The same for what takes time and may fail besides.
structure Tracks (known : Registers → Prop) (allowed : (Registers → Registers) → Prop)
    (related : ∀ {α : Type}, Execution μ α → Execution ν α → Prop) : Prop
    extends TracksStores known allowed related where
  charge (cycles : Nat) : related (charge cycles) (charge cycles)
  throw {α : Type} (error : ProcessorError) :
    related (throw error : Execution μ α) (throw error : Execution ν α)

-- All that an entry does to the registers is allowed.
structure AllowsEntry (allowed : (Registers → Registers) → Prop) : Prop where
  stackDown : allowed Registers.stackDown
  handler : allowed fun r => { r with p := (r.p.put .irqDisable true).put .decimal false, k := 0 }
  counter : ∀ pc, allowed fun r => { r with pc }
  reset : allowed Registers.reset

-- All that the return from a handler does to them is.
structure AllowsReturn (allowed : (Registers → Registers) → Prop) : Prop where
  stackUp : allowed Registers.stackUp
  status : ∀ p, allowed fun r => r.setStatus p
  counter : ∀ pc, allowed fun r => { r with pc }
  bank : ∀ k, allowed fun r => { r with k }

variable {related : ∀ {α : Type}, Execution μ α → Execution ν α → Prop}

namespace ComposesBytes

variable (composes : ComposesBytes related)
include composes

theorem loadWord (address : Address) : related (loadWord address) (loadWord address) :=
  composes.bind (composes.loadByte _) fun _ => composes.bind (composes.loadByte _) fun _ =>
    composes.pure _

theorem loadLong (address : Address) : related (loadLong address) (loadLong address) :=
  composes.bind (composes.loadWord _) fun _ => composes.bind (composes.loadByte _) fun _ =>
    composes.pure _

theorem load (address : Address) (width : Width) :
    related (load address width) (load address width) := by
  cases width with
  | byte => exact composes.bind (composes.loadByte _) fun _ => composes.pure _
  | word => exact composes.loadWord _

-- Reading an instruction.

theorem operandByte (opcodeAt : Address) (index : UInt16) :
    related (operandByte opcodeAt index) (operandByte opcodeAt index) :=
  composes.loadByte _

theorem operandWord (opcodeAt : Address) :
    related (operandWord opcodeAt) (operandWord opcodeAt) :=
  composes.bind (composes.operandByte _ _) fun _ =>
    composes.bind (composes.operandByte _ _) fun _ => composes.pure _

theorem operandLong (opcodeAt : Address) :
    related (operandLong opcodeAt) (operandLong opcodeAt) :=
  composes.bind (composes.operandWord _) fun _ =>
    composes.bind (composes.operandByte _ _) fun _ => composes.pure _

theorem operandConstant (opcodeAt : Address) (width : Width) :
    related (operandConstant opcodeAt width) (operandConstant opcodeAt width) := by
  cases width with
  | byte => exact composes.bind (composes.operandByte _ _) fun _ => composes.pure _
  | word => exact composes.bind (composes.operandWord _) fun _ => composes.pure _

-- Finding the data. There may be no address to find.
theorem effectiveAddress (r : Registers) (operand : Operand) :
    related (effectiveAddress r operand) (effectiveAddress r operand) := by
  cases operand with
  | directXIndirect | directIndirect | directIndirectY | absoluteXIndirect | absoluteIndirect
  | stackRelativeIndirectY =>
      exact composes.bind (composes.loadWord _) fun _ => composes.pure _
  | directIndirectLong | directIndirectLongY | absoluteIndirectLong =>
      exact composes.bind (composes.loadLong _) fun _ => composes.pure _
  | _ => exact composes.pure _

-- Words on the stack.

section Push

variable (hpush : ∀ value, related (pushByte value) (pushByte value))
include hpush

theorem pushWord_of (value : UInt16) : related (pushWord value) (pushWord value) :=
  composes.bind (hpush _) fun _ => hpush _

theorem pushWide_of (value : UInt16) (width : Width) :
    related (pushWide value width) (pushWide value width) := by
  cases width with
  | byte => exact hpush _
  | word => exact composes.pushWord_of hpush value

end Push

section Pull

variable (hpull : related pullByte pullByte)
include hpull

theorem pullWord_of : related pullWord pullWord :=
  composes.bind hpull fun _ => composes.bind hpull fun _ => composes.pure _

theorem pullWide_of (width : Width) : related (pullWide width) (pullWide width) := by
  cases width with
  | byte => exact composes.bind hpull fun _ => composes.pure _
  | word => exact composes.pullWord_of hpull

end Pull

end ComposesBytes

variable {known : Registers → Prop} {allowed : (Registers → Registers) → Prop}

namespace TracksReads

variable (tracks : TracksReads known related)
include tracks

theorem decodeOperand (opcodeAt : Address) (mode : Mode) :
    related (decodeOperand opcodeAt mode) (decodeOperand opcodeAt mode) := by
  cases mode with
  | implied | accumulator => exact tracks.pure _
  | accumulatorConstant | indexConstant =>
      exact tracks.registers_bind (fun _ => rfl) fun _ _ => tracks.operandConstant _ _
  | relativeLong | absolute | absoluteX | absoluteY | absoluteXIndirect | absoluteIndirect
  | absoluteIndirectLong =>
      exact tracks.bind (tracks.operandWord _) fun _ => tracks.pure _
  | long | longX => exact tracks.bind (tracks.operandLong _) fun _ => tracks.pure _
  | blockMove =>
      exact tracks.bind (tracks.operandByte _ _) fun _ =>
        tracks.bind (tracks.operandByte _ _) fun _ => tracks.pure _
  | _ => exact tracks.bind (tracks.operandByte _ _) fun _ => tracks.pure _

theorem read (location : Location) (width : Width) :
    related (read location width) (read location width) := by
  cases location with
  | accumulator => exact tracks.registers_bind (fun _ => rfl) fun _ _ => tracks.pure _
  | constant => exact tracks.pure _
  | memory address => exact tracks.load address width

theorem wait
    (hwaits : related (modifyInterrupts ({ · with waiting := true }))
      (modifyInterrupts ({ · with waiting := true }))) :
    related wait wait := by
  refine tracks.registers_bind (fun _ => rfl) fun r _ => ?_
  split
  · exact tracks.pure ()
  · exact hwaits

section Locate

variable (hcharge : ∀ cycles, related (charge cycles) (charge cycles))
  (hthrow : ∀ {α : Type} (error : ProcessorError),
    related (throw error : Execution μ α) (throw error : Execution ν α))
  (instruction : Instruction)
include hcharge hthrow

-- The data is in A only if the operand says so.
theorem locate_bind_of {β : Type} {next : Location → Execution μ β}
    {next' : Location → Execution ν β}
    (hnext : ∀ location, (location = .accumulator → instruction.operand = .accumulator) →
      related (next location) (next' location)) :
    related (locate instruction >>= next) (locate instruction >>= next') := by
  have heffective (r : Registers) (operand : Operand) :
      (effectiveAddress r.native operand : Execution ν _) = effectiveAddress r operand := by
    cases operand <;> rfl
  unfold Execution.locate
  split
  · rename_i hoperand
    rw [pure_bind, pure_bind]
    exact hnext _ fun _ => hoperand
  · rw [pure_bind, pure_bind]
    exact hnext _ nofun
  · rw [pure_bind, pure_bind]
    exact hnext _ nofun
  · simp only [bind_assoc]
    refine tracks.registers_bind
      (fun r => by simp only [r.penalty_native, heffective]) fun r _ =>
      tracks.bind (hcharge _) fun _ => tracks.bind (tracks.effectiveAddress r _) fun found => ?_
    cases found with
    | none => exact hthrow _
    | some address =>
        rw [pure_bind, pure_bind]
        exact hnext _ nofun

theorem locate_of : related (locate instruction) (locate instruction) := by
  have hbind := tracks.locate_bind_of hcharge hthrow instruction fun location _ =>
    tracks.pure location
  rwa [bind_pure, bind_pure] at hbind

theorem locateAddress_of : related (locateAddress instruction) (locateAddress instruction) := by
  refine tracks.bind (tracks.locate_of hcharge hthrow instruction) fun location => ?_
  cases location with
  | memory address => exact tracks.pure _
  | accumulator | constant => exact hthrow _

end Locate

end TracksReads

namespace TracksStores

variable (tracks : TracksStores known allowed related)
include tracks

theorem store (address : Address) (value : UInt16) (width : Width) :
    related (store address value width) (store address value width) := by
  cases width with
  | byte => exact tracks.storeByte _ _
  | word => exact tracks.bind (tracks.storeByte _ _) fun _ => tracks.storeByte _ _

theorem moveByte {delta : UInt16} (hallowed : allowed fun r => r.moveOn delta)
    (target source : UInt8) :
    related (moveByte target source delta) (moveByte target source delta) :=
  tracks.registers_bind (fun _ => rfl) fun _ _ => tracks.bind (tracks.loadByte _) fun _ =>
    tracks.bind (tracks.storeByte _ _) fun _ => tracks.modifyRegisters hallowed

theorem loadVector (hcounter : ∀ pc, allowed fun r => { r with pc }) (interrupt : Interrupt)
    (emulation : Bool) :
    related (loadVector interrupt emulation) (loadVector interrupt emulation) :=
  tracks.bind (tracks.loadWord _) fun pc => tracks.modifyRegisters (hcounter pc)

-- Single bytes on the stack, entries into handlers and the return from them need not be blind to
-- E. The two sides have to have the same registers for that.

section SameRegisters

variable (hregisters : related registers registers)
include hregisters

theorem pushByte (hdown : allowed Registers.stackDown) (value : UInt8) :
    related (pushByte value) (pushByte value) :=
  tracks.bind hregisters fun _ => tracks.bind (tracks.storeByte _ _) fun _ =>
    tracks.modifyRegisters hdown

theorem pullByte (hup : allowed Registers.stackUp) : related pullByte pullByte :=
  tracks.bind (tracks.modifyRegisters hup) fun _ => tracks.bind hregisters fun _ =>
    tracks.loadByte _

variable (hcharge : ∀ cycles, related (charge cycles) (charge cycles))
include hcharge

theorem enterHandler (hallows : AllowsEntry allowed) (interrupt : Interrupt) :
    related (enterHandler interrupt) (enterHandler interrupt) := by
  have hpush := tracks.pushByte hregisters hallows.stackDown
  refine tracks.bind hregisters fun r => ?_
  have hrest (cycles : Nat) := tracks.bind (tracks.pushWord_of hpush r.pc) fun _ =>
    tracks.bind (hpush (pushedStatus interrupt r)) fun _ =>
    tracks.bind (tracks.modifyRegisters hallows.handler) fun _ =>
    tracks.bind (tracks.loadVector hallows.counter interrupt r.emulation) fun _ => hcharge cycles
  dsimp only
  split
  · exact hrest 7
  · exact tracks.bind (hpush r.k) fun _ => hrest 8

-- A reset begins with a change to the interrupts.
theorem enter (hallows : AllowsEntry allowed) {interrupt : Interrupt}
    (hforget : interrupt = .reset →
      related (modifyInterrupts fun _ => {}) (modifyInterrupts fun _ => {})) :
    related (enter interrupt) (enter interrupt) := by
  cases interrupt with
  | reset =>
      exact tracks.bind (hforget rfl) fun _ =>
        tracks.bind (tracks.modifyRegisters hallows.reset) fun _ =>
        tracks.bind (tracks.loadVector hallows.counter _ _) fun _ => hcharge 7
  | nmi | abort | irq | brk | cop =>
      exact tracks.enterHandler hregisters hcharge hallows _

theorem returnInterrupt (hallows : AllowsReturn allowed) :
    related returnInterrupt returnInterrupt := by
  have hpull := tracks.pullByte hregisters hallows.stackUp
  refine tracks.bind hpull fun p =>
    tracks.bind (tracks.modifyRegisters (hallows.status ⟨p⟩)) fun _ =>
    tracks.bind (tracks.pullWord_of hpull) fun pc =>
    tracks.bind (tracks.modifyRegisters (hallows.counter pc)) fun _ =>
    tracks.bind hregisters fun _ => ?_
  split
  · exact tracks.pure ()
  · exact tracks.bind hpull fun k =>
      tracks.bind (tracks.modifyRegisters (hallows.bank k)) fun _ => hcharge 1

end SameRegisters

end TracksStores

namespace Tracks

variable (tracks : Tracks known allowed related)
include tracks

theorem fetch (hcounter : ∀ pc, allowed fun r => { r with pc }) (table : OpcodeTable) :
    related (fetch table) (fetch table) := by
  refine tracks.registers_bind (fun _ => rfl) fun r _ =>
    tracks.bind (tracks.loadByte _) fun opcode => ?_
  cases table.get? opcode with
  | none => exact tracks.throw _
  | some operation =>
      exact tracks.bind (tracks.decodeOperand _ _) fun _ =>
        tracks.bind (tracks.modifyRegisters (hcounter _)) fun _ => tracks.pure _

theorem locate_bind {β : Type} {instruction : Instruction} {next : Location → Execution μ β}
    {next' : Location → Execution ν β}
    (hnext : ∀ location, (location = .accumulator → instruction.operand = .accumulator) →
      related (next location) (next' location)) :
    related (locate instruction >>= next) (locate instruction >>= next') :=
  tracks.locate_bind_of tracks.charge tracks.throw instruction hnext

theorem locateAddress (instruction : Instruction) :
    related (locateAddress instruction) (locateAddress instruction) :=
  tracks.locateAddress_of tracks.charge tracks.throw instruction

theorem write (operation : Operation) {location : Location} {width : Width} {value : UInt16}
    (hallowed : location = .accumulator → allowed fun r => { r with a := width.merge r.a value }) :
    related (write operation location width value) (write operation location width value) := by
  cases location with
  | accumulator => exact tracks.modifyRegisters (hallowed rfl)
  | constant => exact tracks.throw _
  | memory address => exact tracks.store address value width

end Tracks

-- All changes of the action are allowed.
def Allows (known : Registers → Prop) (allowed : (Registers → Registers) → Prop)
    (operand : Operand) (action : Action) : Prop :=
  ∀ {r : Registers} {change : Registers → Registers}, known r → action.Makes r operand change →
    allowed change

namespace Tracks

variable (tracks : Tracks known allowed related) {instruction : Instruction}
include tracks

-- What changes the registers may begin by reading them.
theorem modifyKnown {change : Registers → Registers} (hallowed : ∀ r, known r → allowed change) :
    related (modifyRegisters change) (modifyRegisters change) := by
  have hbind : related (registers >>= fun _ => modifyRegisters change)
      (registers >>= fun _ => modifyRegisters change) :=
    tracks.registers_bind (fun _ => rfl) fun r hknown =>
      tracks.modifyRegisters (hallowed r hknown)
  exact hbind

-- Instructions on data.

-- Most instructions find their data, read it, change the registers and charge for a word.
theorem readThen {β : Type} (width : Width) {next : UInt16 → Execution μ β}
    {next' : UInt16 → Execution ν β} (hnext : ∀ value, related (next value) (next' value)) :
    related
      (do let location ← Execution.locate instruction
          let value ← Execution.read location width
          next value)
      (do let location ← Execution.locate instruction
          let value ← Execution.read location width
          next' value) :=
  tracks.locate_bind fun _ _ => tracks.bind (tracks.read _ width) hnext

theorem changeThenCharge {change : Registers → Registers} (hallowed : allowed change)
    (width : Width) (cycles : Nat) :
    related
      (do Execution.modifyRegisters change; Execution.chargeWord width cycles)
      (do Execution.modifyRegisters change; Execution.chargeWord width cycles) :=
  tracks.bind (tracks.modifyRegisters hallowed) fun _ => tracks.charge _

theorem add (hallows : Allows known allowed instruction.operand .add) :
    related (accumulate Arithmetic.addWithCarry instruction)
      (accumulate Arithmetic.addWithCarry instruction) :=
  tracks.registers_bind (fun _ => rfl) fun _ hknown => tracks.readThen _ fun value =>
    tracks.changeThenCharge (hallows hknown (.sum value)) _ 1

theorem subtract (hallows : Allows known allowed instruction.operand .subtract) :
    related (accumulate Arithmetic.subtractWithBorrow instruction)
      (accumulate Arithmetic.subtractWithBorrow instruction) :=
  tracks.registers_bind (fun _ => rfl) fun _ hknown => tracks.readThen _ fun value =>
    tracks.changeThenCharge (hallows hknown (.difference value)) _ 1

theorem combine {action : Action} (hallows : Allows known allowed instruction.operand action)
    (hassigned : action.assigned? = some .a) (f : UInt16 → UInt16 → UInt16) :
    related (combine f instruction) (combine f instruction) :=
  tracks.registers_bind (fun _ => rfl) fun _ hknown => tracks.readThen _ fun _ =>
    tracks.changeThenCharge (hallows hknown (.assign hassigned _ fun _ => rfl)) _ 1

theorem compareWith {register : DataRegister}
    (hallows : Allows known allowed instruction.operand (.compare register)) :
    related (compareWith register instruction) (compareWith register instruction) :=
  tracks.registers_bind (fun r => by simp only [r.dataWidth_native]) fun _ hknown =>
    tracks.readThen _ fun value =>
    tracks.changeThenCharge (hallows hknown (.comparison register value)) _ 1

theorem testBits (hallows : Allows known allowed instruction.operand .testBits) :
    related (testBits instruction) (testBits instruction) :=
  tracks.registers_bind (fun _ => rfl) fun _ hknown => tracks.locate_bind fun location _ =>
    tracks.bind (tracks.read location _) fun value =>
    tracks.changeThenCharge (hallows hknown (.testBits value location.isConstant)) _ 1

theorem loadData {target : DataRegister}
    (hallows : Allows known allowed instruction.operand (.load target)) :
    related (loadData target instruction) (loadData target instruction) :=
  tracks.registers_bind (fun r => by simp only [r.dataWidth_native]) fun _ hknown =>
    tracks.readThen _ fun _ =>
    tracks.changeThenCharge (hallows hknown (.assign rfl _ fun _ => rfl)) _ 1

theorem storeValue {width : Width} {value : UInt16}
    (hallowed : instruction.operand = .accumulator →
      allowed fun r => { r with a := width.merge r.a value }) :
    related (storeValue width value instruction) (storeValue width value instruction) :=
  tracks.locate_bind fun _ hplace =>
    tracks.bind (tracks.write _ fun haccumulator => hallowed (hplace haccumulator)) fun _ =>
    tracks.charge _

theorem storeData {source : DataRegister}
    (hallows : Allows known allowed instruction.operand (.store source)) :
    related (storeData source instruction) (storeData source instruction) :=
  tracks.registers_bind (fun r => by simp only [r.dataWidth_native, r.data_native])
    fun _ hknown => tracks.storeValue fun hoperand =>
      hallows hknown (.accumulator rfl hoperand _)

theorem storeZero (hallows : Allows known allowed instruction.operand .storeZero) :
    related (storeZero instruction) (storeZero instruction) :=
  tracks.registers_bind (fun _ => rfl) fun _ hknown => tracks.storeValue fun hoperand =>
    hallows hknown (.accumulator rfl hoperand _)

theorem putBits {value : Bool}
    (hallows : Allows known allowed instruction.operand (.putBits value)) :
    related (putBits value instruction) (putBits value instruction) :=
  tracks.registers_bind (fun _ => rfl) fun _ hknown => tracks.locate_bind fun _ hplace =>
    tracks.bind (tracks.read _ _) fun _ =>
    tracks.bind (tracks.modifyRegisters (hallows hknown (.zero value _))) fun _ =>
    tracks.bind (tracks.write _ fun haccumulator =>
      hallows hknown (.accumulator rfl (hplace haccumulator) _)) fun _ => tracks.charge _

-- The status that a read-modify-write instruction looks at is still there when it is replaced.
omit tracks [Memory ν] in
theorem change_eq (f : Width → UInt16 → Status → UInt16 × Status) (instruction : Instruction) :
    (Execution.change f instruction : Execution μ Unit) =
      (do
        let width := (← Execution.registers).accumulatorWidth
        let location ← Execution.locate instruction
        let old ← Execution.read location width
        let p := (← Execution.registers).p
        Execution.modifyRegisters fun r => { r with p := (f width old r.p).2 }
        Execution.write instruction.operation location width (f width old p).1
        unless location = .accumulator do Execution.chargeWord width 2) :=
  rfl

theorem change {action : Action} (hallows : Allows known allowed instruction.operand action)
    (f : Width → UInt16 → Status → UInt16 × Status)
    (hmakes : ∀ r old, action.Makes r instruction.operand fun r' =>
      { r' with p := (f r.accumulatorWidth old r'.p).2 })
    (hwidth : ∀ r, action.writtenWidth? r = some r.accumulatorWidth) :
    related (change f instruction) (change f instruction) := by
  rw [change_eq, change_eq]
  refine tracks.registers_bind (fun _ => rfl) fun r hknown =>
    tracks.locate_bind fun location hplace => tracks.bind (tracks.read location _) fun old =>
    tracks.registers_bind (fun _ => rfl) fun _ _ =>
    tracks.bind (tracks.modifyRegisters (hallows hknown (hmakes r old))) fun _ =>
    tracks.bind (tracks.write _ fun haccumulator =>
      hallows hknown (.accumulator (hwidth r) (hplace haccumulator) _)) fun _ => ?_
  split
  · exact tracks.pure ()
  · exact tracks.charge _

theorem shift {kind : Shift}
    (hallows : Allows known allowed instruction.operand (.shift kind)) :
    related (shift kind instruction) (shift kind instruction) :=
  tracks.change hallows _ (fun _ old => .shift kind old) fun _ => rfl

theorem step {delta : UInt16}
    (hallows : Allows known allowed instruction.operand (.step delta)) :
    related (step delta instruction) (step delta instruction) :=
  tracks.change hallows _ (fun _ old => .step delta (old + delta)) fun _ => rfl

section BlockMove

variable {delta : UInt16} (hallowed : allowed fun r => r.moveOn delta) (target source : UInt8)
include hallowed

theorem moveNext (first : Bool) :
    related (moveNext target source delta first) (moveNext target source delta first) := by
  have hlast :
      related (do return (← registers).a == 0xFFFF) (do return (← registers).a == 0xFFFF) :=
    tracks.registers_bind (fun _ => rfl) fun _ _ => tracks.pure _
  refine tracks.bind (tracks.moveByte hallowed target source) fun _ => ?_
  cases first with
  | true => exact hlast
  | false => exact tracks.bind (tracks.charge _) fun _ => hlast

theorem moveFurther (count : Nat) :
    related (moveFurther target source delta count) (moveFurther target source delta count) := by
  induction count with
  | zero => exact tracks.pure ()
  | succ count ih => exact tracks.bind (tracks.moveNext hallowed target source false) fun _ => ih

end BlockMove

theorem blockMove {delta : UInt16}
    (hallows : Allows known allowed instruction.operand (.blockMove delta)) :
    related (blockMove delta instruction) (blockMove delta instruction) := by
  rw [blockMove_eq, blockMove_eq]
  split
  · exact tracks.registers_bind (fun _ => rfl) fun _ hknown =>
      tracks.bind (tracks.modifyRegisters (hallows hknown (.dataBank delta _))) fun _ =>
      tracks.bind (tracks.moveNext (hallows hknown (.moveOn delta)) _ _ _) fun _ =>
      tracks.moveFurther (hallows hknown (.moveOn delta)) _ _ _
  · exact tracks.throw _

-- Instructions on the stack. How the stack moves is left to those who know.

theorem push (source : Pushed) (hpush : ∀ value, related (pushByte value) (pushByte value)) :
    related (push source) (push source) := by
  refine tracks.registers_bind (fun r => by simp only [r.pushed_native]) fun r _ =>
    tracks.bind (tracks.pushWide_of hpush _ _) fun _ => ?_
  cases source with
  | data register => exact tracks.charge _
  | direct | dataBank | programBank | status => exact tracks.pure ()

theorem pull {target : Pulled} {operand : Operand}
    (hallows : Allows known allowed operand (.pull target)) (hpull : related pullByte pullByte) :
    related (pull target) (pull target) := by
  refine tracks.registers_bind (fun r => by simp only [r.pulledWidth_native]) fun r hknown =>
    tracks.bind (tracks.pullWide_of hpull _) fun value =>
    tracks.bind (tracks.modifyRegisters (hallows hknown (.pulled target value))) fun _ => ?_
  cases target with
  | data register => exact tracks.charge _
  | direct | dataBank | status => exact tracks.pure ()

theorem pushAddress (hpush : ∀ value, related (pushByte value) (pushByte value)) :
    related (pushAddress instruction) (pushAddress instruction) :=
  tracks.bind (tracks.locateAddress instruction) fun _ => tracks.pushWord_of hpush _

-- Instructions that go elsewhere.

section Elsewhere

variable {action : Action} {operand : Operand} (hallows : Allows known allowed operand action)
include hallows

theorem setCounter (pc : UInt16) :
    related (modifyRegisters ({ · with pc })) (modifyRegisters ({ · with pc })) :=
  tracks.modifyKnown fun _ hknown => hallows hknown (.counter pc)

theorem setLongCounter (k : UInt8) (pc : UInt16) :
    related (modifyRegisters ({ · with k, pc })) (modifyRegisters ({ · with k, pc })) :=
  tracks.modifyKnown fun _ hknown => hallows hknown (.longCounter k pc)

theorem branch (condition : Condition) (extra : Nat) :
    related (branch condition extra instruction) (branch condition extra instruction) := by
  refine tracks.registers_bind (fun _ => rfl) fun r _ =>
    tracks.bind (tracks.locateAddress instruction) fun target => ?_
  split
  · exact tracks.bind (tracks.setCounter hallows _) fun _ => tracks.charge _
  · exact tracks.pure ()

theorem jump : related (jump instruction) (jump instruction) :=
  tracks.bind (tracks.locateAddress instruction) fun _ => tracks.setCounter hallows _

theorem jumpLong : related (jumpLong instruction) (jumpLong instruction) :=
  tracks.bind (tracks.locateAddress instruction) fun _ => tracks.setLongCounter hallows _ _

theorem call (hpush : ∀ value, related (pushByte value) (pushByte value)) :
    related (call instruction) (call instruction) :=
  tracks.registers_bind (fun _ => rfl) fun _ _ => tracks.bind (tracks.pushWord_of hpush _) fun _ =>
    tracks.jump hallows

theorem callLong (hpush : ∀ value, related (pushByte value) (pushByte value)) :
    related (callLong instruction) (callLong instruction) :=
  tracks.registers_bind (fun _ => rfl) fun _ _ => tracks.bind (hpush _) fun _ =>
    tracks.bind (tracks.pushWord_of hpush _) fun _ => tracks.jumpLong hallows

theorem returnNear (hpull : related pullByte pullByte) : related returnNear returnNear :=
  tracks.bind (tracks.pullWord_of hpull) fun _ => tracks.setCounter hallows _

theorem returnLong (hpull : related pullByte pullByte) : related returnLong returnLong :=
  tracks.bind (tracks.pullWord_of hpull) fun _ => tracks.bind hpull fun _ =>
    tracks.setLongCounter hallows _ _

end Elsewhere

theorem putStatus {value : Bool}
    (hallows : Allows known allowed instruction.operand (.putStatus value)) :
    related (putStatus value instruction) (putStatus value instruction) := by
  unfold Execution.putStatus
  split
  · exact tracks.modifyKnown fun _ hknown => hallows hknown (.status _ value)
  · exact tracks.throw _

-- Any instruction. Entering and leaving handlers depends on E, and halting is not about registers.

theorem perform (instruction : Instruction) {action : Action}
    (hallows : Allows known allowed instruction.operand action)
    (hpush : action.Pushes → ∀ value, related (pushByte value) (pushByte value))
    (hpull : action.Pulls → related pullByte pullByte)
    (hreturn : action = .returnInterrupt → related returnInterrupt returnInterrupt)
    (hraise : ∀ interrupt, action = .raise interrupt → related (enter interrupt) (enter interrupt))
    (hwait : action = .wait → related wait wait) (hstop : action = .stop → related stop stop) :
    related (perform instruction action) (perform instruction action) := by
  cases action with
  | add => exact tracks.add hallows
  | subtract => exact tracks.subtract hallows
  | conjoin | disjoin | exclude => exact tracks.combine hallows rfl _
  | compare register => exact tracks.compareWith hallows
  | testBits => exact tracks.testBits hallows
  | putBits value => exact tracks.putBits hallows
  | shift kind => exact tracks.shift hallows
  | step delta => exact tracks.step hallows
  | stepIndex register delta =>
      exact tracks.modifyKnown fun _ hknown => hallows hknown (.stepIndex register delta)
  | load register => exact tracks.loadData hallows
  | store register => exact tracks.storeData hallows
  | storeZero => exact tracks.storeZero hallows
  | copy target source =>
      exact tracks.modifyKnown fun _ hknown =>
        hallows hknown (.assign rfl (·.word source) fun r => r.word_native source)
  | copyWord target source =>
      exact tracks.modifyKnown fun _ hknown => hallows hknown (.copyWord target source)
  | copyToStack source =>
      exact tracks.modifyKnown fun _ hknown => hallows hknown (.copyToStack source)
  | swapBytes => exact tracks.modifyKnown fun _ hknown => hallows hknown .swapBytes
  | blockMove delta => exact tracks.blockMove hallows
  | push source => exact tracks.push source (hpush trivial)
  | pull target => exact tracks.pull hallows (hpull trivial)
  | pushAddress => exact tracks.pushAddress (hpush trivial)
  | branch condition extra => exact tracks.branch hallows condition extra
  | jump => exact tracks.jump hallows
  | jumpLong => exact tracks.jumpLong hallows
  | call => exact tracks.call hallows (hpush trivial)
  | callLong => exact tracks.callLong hallows (hpush trivial)
  | returnNear => exact tracks.returnNear hallows (hpull trivial)
  | returnLong => exact tracks.returnLong hallows (hpull trivial)
  | returnInterrupt => exact hreturn rfl
  | raise interrupt => exact hraise interrupt rfl
  | putFlag flag value => exact tracks.modifyKnown fun _ hknown => hallows hknown (.flag flag value)
  | putStatus value => exact tracks.putStatus hallows
  | exchangeEmulation => exact tracks.modifyKnown fun _ hknown => hallows hknown .exchangeEmulation
  | wait => exact hwait rfl
  | stop => exact hstop rfl
  | nothing => exact tracks.pure ()

end Tracks

end Execution

end Console816
