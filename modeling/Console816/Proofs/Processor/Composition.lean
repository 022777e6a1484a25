import Console816.Proofs.Processor.Effects

namespace Console816

-- Whole words are copied to A and D only, and no instruction sets a flag of the widths by itself.
def Action.Regular : Action → Prop
  | copyWord target _ => target = .a ∨ target = .d
  | putFlag flag _ => flag ≠ .narrowAccumulator ∧ flag ≠ .narrowIndex
  | _ => True

theorem Mnemonic.action_regular (mnemonic : Mnemonic) : mnemonic.action.Regular := by
  cases mnemonic <;> simp [action, Action.Regular]

-- BRK and COP are all that an instruction raises.
theorem Mnemonic.raised_cases {mnemonic : Mnemonic} {interrupt : Interrupt}
    (hraise : mnemonic.action = .raise interrupt) : interrupt = .brk ∨ interrupt = .cop := by
  cases mnemonic <;> cases hraise <;> simp

-- Whatever a regular action does to the registers is a change that is known in general.
theorem Action.Makes.change {action : Action} {r : Registers} {operand : Operand}
    {change : Registers → Registers} (hmakes : action.Makes r operand change)
    (hregular : action.Regular) : Registers.Change change := by
  cases hmakes with
  | counter pc => exact .counter pc
  | longCounter k pc => exact .longCounter k pc
  | sum value => exact .addition _ value
  | difference value => exact .subtraction _ value
  | comparison register value => exact .comparison register _ value
  | testBits value isConstant => exact .testBits _ value isConstant
  | assign hassigned value hvalue => exact .assign _ value
  | zero bits isZero => exact .flag .zero isZero (by decide) (by decide)
  | shift kind old => exact .shift kind _ old
  | step delta value => exact .description _ value
  | accumulator hwidth hoperand value => exact .accumulator _ value
  | stepIndex register delta => exact .stepData register delta
  | copyWord target source => exact .assignWord target (·.word source) hregular
  | copyToStack source => exact .assignStack (·.word source)
  | swapBytes => exact .swapBytes
  | dataBank delta dbr => exact .dataBank dbr
  | moveOn delta => exact .moveOn delta
  | pulled target value => exact .assignPulled value target
  | flag flag value => exact .flag flag value hregular.1 hregular.2
  | status mask value => exact .putStatus mask value
  | exchangeEmulation => exact .exchangeEmulation

namespace Execution

variable {μ ν : Type} [Memory μ] [Memory ν]

-- A relation between pieces of work on two memories that holds of what reads registers and memory
-- if it holds of the parts.
structure ComposesLoads (related : ∀ {α : Type}, Execution μ α → Execution ν α → Prop) : Prop
    extends ComposesBytes related where
  registers : related registers registers

-- The same for what takes time besides.
structure ComposesReads (related : ∀ {α : Type}, Execution μ α → Execution ν α → Prop) : Prop
    extends ComposesLoads related where
  charge (cycles : Nat) : related (charge cycles) (charge cycles)

-- The same for what changes registers and memory.
structure ComposesStores (related : ∀ {α : Type}, Execution μ α → Execution ν α → Prop) : Prop
    extends ComposesLoads related where
  modifyRegisters {change : Registers → Registers} (hchange : Registers.Change change) :
    related (modifyRegisters change) (modifyRegisters change)
  storeByte (address : Address) (value : UInt8) :
    related (storeByte address value) (storeByte address value)

-- The same for what does both.
structure ComposesWrites (related : ∀ {α : Type}, Execution μ α → Execution ν α → Prop) : Prop
    extends ComposesReads related, ComposesStores related

-- The same for what may find its operand unfit.
structure ComposesThrows (related : ∀ {α : Type}, Execution μ α → Execution ν α → Prop) : Prop
    extends ComposesWrites related where
  throw {α : Type} (error : ProcessorError) :
    related (throw error : Execution μ α) (throw error : Execution ν α)

-- The same for whole instructions, which may halt the processor.
structure Composes (related : ∀ {α : Type}, Execution μ α → Execution ν α → Prop) : Prop
    extends ComposesThrows related where
  waits : related (modifyInterrupts ({ · with waiting := true }))
    (modifyInterrupts ({ · with waiting := true }))
  stops : related (modifyInterrupts ({ · with stopped := true }))
    (modifyInterrupts ({ · with stopped := true }))

variable {related : ∀ {α : Type}, Execution μ α → Execution ν α → Prop}

namespace ComposesLoads

variable (composes : ComposesLoads related)
include composes

theorem tracksReads : TracksReads (fun _ => True) related where
  toComposesBytes := composes.toComposesBytes
  registers_bind _ hnext := composes.bind composes.registers fun r => hnext r trivial

theorem decodeOperand (opcodeAt : Address) (mode : Mode) :
    related (decodeOperand opcodeAt mode) (decodeOperand opcodeAt mode) :=
  composes.tracksReads.decodeOperand opcodeAt mode

theorem read (location : Location) (width : Width) :
    related (read location width) (read location width) :=
  composes.tracksReads.read location width

end ComposesLoads

namespace ComposesReads

variable (composes : ComposesReads related)
include composes

section Throw

variable (hthrow : ∀ {α : Type} (error : ProcessorError),
  related (throw error : Execution μ α) (throw error : Execution ν α))
include hthrow

theorem locate (instruction : Instruction) :
    related (locate instruction) (locate instruction) :=
  composes.tracksReads.locate_of composes.charge hthrow instruction

theorem locateAddress (instruction : Instruction) :
    related (locateAddress instruction) (locateAddress instruction) :=
  composes.tracksReads.locateAddress_of composes.charge hthrow instruction

end Throw

end ComposesReads

namespace ComposesStores

variable (composes : ComposesStores related)
include composes

theorem tracksStores : TracksStores (fun _ => True) Registers.Change related where
  toTracksReads := composes.tracksReads
  modifyRegisters := composes.modifyRegisters
  storeByte := composes.storeByte

theorem store (address : Address) (value : UInt16) (width : Width) :
    related (store address value width) (store address value width) :=
  composes.tracksStores.store address value width

-- The stack.

theorem pushByte (value : UInt8) : related (pushByte value) (pushByte value) :=
  composes.tracksStores.pushByte composes.registers .stackDown value

theorem pushWord (value : UInt16) : related (pushWord value) (pushWord value) :=
  composes.pushWord_of composes.pushByte value

theorem pushWide (value : UInt16) (width : Width) :
    related (pushWide value width) (pushWide value width) :=
  composes.toComposesBytes.pushWide_of composes.pushByte value width

theorem pullByte : related pullByte pullByte :=
  composes.tracksStores.pullByte composes.registers .stackUp

theorem pullWord : related pullWord pullWord := composes.pullWord_of composes.pullByte

theorem pullWide (width : Width) : related (pullWide width) (pullWide width) :=
  composes.pullWide_of composes.pullByte width

-- What an entry ends with.
theorem loadVector (interrupt : Interrupt) (emulation : Bool) :
    related (loadVector interrupt emulation) (loadVector interrupt emulation) :=
  composes.tracksStores.loadVector .counter interrupt emulation

-- Returning from calls.

theorem returnNear : related returnNear returnNear :=
  composes.bind composes.pullWord fun _ => composes.modifyRegisters (.counter _)

theorem returnLong : related returnLong returnLong :=
  composes.bind composes.pullWord fun _ => composes.bind composes.pullByte fun _ =>
    composes.modifyRegisters (.longCounter _ _)

-- A byte of a block move.
theorem moveByte (target source : UInt8) (delta : UInt16) :
    related (moveByte target source delta) (moveByte target source delta) :=
  composes.tracksStores.moveByte (.moveOn delta) target source

end ComposesStores

namespace ComposesWrites

variable (composes : ComposesWrites related)
include composes

-- Entering a handler, and leaving it. A reset begins with a change to the interrupts.

theorem enter {interrupt : Interrupt} (hinterrupt : interrupt ≠ .reset) :
    related (enter interrupt) (enter interrupt) :=
  composes.tracksStores.enter composes.registers composes.charge
    ⟨.stackDown, .handler, .counter, .reset⟩ fun hreset => absurd hreset hinterrupt

theorem enterAny (hforget : related (modifyInterrupts fun _ => {}) (modifyInterrupts fun _ => {}))
    (interrupt : Interrupt) :
    related (Execution.enter interrupt) (Execution.enter interrupt) :=
  composes.tracksStores.enter composes.registers composes.charge
    ⟨.stackDown, .handler, .counter, .reset⟩ fun _ => hforget

theorem returnInterrupt : related returnInterrupt returnInterrupt :=
  composes.tracksStores.returnInterrupt composes.registers composes.charge
    ⟨.stackUp, .setStatus, .counter, .bank⟩

end ComposesWrites

namespace ComposesThrows

variable (composes : ComposesThrows related)
include composes

theorem tracks : Tracks (fun _ => True) Registers.Change related where
  toTracksStores := composes.tracksStores
  charge := composes.charge
  throw := composes.throw

theorem fetch (table : OpcodeTable) : related (fetch table) (fetch table) :=
  composes.tracks.fetch (fun pc => .counter pc) table

-- Any instruction, since none resets. WAI and STP are left to those who know what they do to the
-- interrupts.

theorem perform (instruction : Instruction) {action : Action} (haction : action.Regular)
    (hreset : action ≠ .raise .reset) (hwait : action = .wait → related wait wait)
    (hstop : action = .stop → related stop stop) :
    related (perform instruction action) (perform instruction action) :=
  composes.tracks.perform instruction (fun _ hmakes => hmakes.change haction)
    (fun _ => composes.pushByte) (fun _ => composes.pullByte) (fun _ => composes.returnInterrupt)
    (fun _ hraise => composes.enter fun heq => hreset (hraise.trans (congrArg _ heq))) hwait hstop

theorem run (instruction : Instruction)
    (hwait : instruction.operation.mnemonic.action = .wait → related wait wait)
    (hstop : instruction.operation.mnemonic.action = .stop → related stop stop) :
    related (run instruction) (run instruction) := by
  have hregular := instruction.operation.mnemonic.action_regular
  refine composes.bind (composes.charge _) fun _ =>
    composes.perform instruction hregular (fun hreset => ?_) hwait hstop
  rcases Mnemonic.raised_cases hreset with h | h <;> cases h

end ComposesThrows

namespace Composes

variable (composes : Composes related)
include composes

theorem wait : related wait wait := composes.tracksReads.wait composes.waits

theorem run (instruction : Instruction) : related (run instruction) (run instruction) :=
  composes.toComposesThrows.run instruction (fun _ => composes.wait) fun _ => composes.stops

end Composes

end Execution

end Console816
