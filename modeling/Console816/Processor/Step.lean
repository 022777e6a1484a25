import Console816.Processor.Control
import Console816.Processor.Transfer

namespace Console816

namespace Execution

variable {μ : Type} [Memory μ]

def perform (instruction : Instruction) : Action → Execution μ Unit
  | .add => accumulate Arithmetic.addWithCarry instruction
  | .subtract => accumulate Arithmetic.subtractWithBorrow instruction
  | .conjoin => combine (· &&& ·) instruction
  | .disjoin => combine (· ||| ·) instruction
  | .exclude => combine (· ^^^ ·) instruction
  | .compare register => compareWith register instruction
  | .testBits => testBits instruction
  | .putBits value => putBits value instruction
  | .shift kind => shift kind instruction
  | .step delta => step delta instruction
  | .stepIndex register delta => modifyRegisters (·.stepData register delta)
  | .load register => loadData register instruction
  | .store register => storeData register instruction
  | .storeZero => storeZero instruction
  | .copy target source => modifyRegisters fun r => r.assign target (r.word source)
  | .copyWord target source => modifyRegisters fun r => r.assignWord target (r.word source)
  | .copyToStack source => modifyRegisters fun r => r.assignStack (r.word source)
  | .swapBytes => modifyRegisters Registers.swapBytes
  | .blockMove delta => blockMove delta instruction
  | .push source => push source
  | .pull target => pull target
  | .pushAddress => pushAddress instruction
  | .branch condition extra => branch condition extra instruction
  | .jump => jump instruction
  | .jumpLong => jumpLong instruction
  | .call => call instruction
  | .callLong => callLong instruction
  | .returnNear => returnNear
  | .returnLong => returnLong
  | .returnInterrupt => returnInterrupt
  | .raise interrupt => enter interrupt
  | .putFlag flag value => modifyRegisters fun r => { r with p := r.p.put flag value }
  | .putStatus value => putStatus value instruction
  | .exchangeEmulation => modifyRegisters Registers.exchangeEmulation
  | .wait => wait
  | .stop => stop
  | .nothing => return

-- An instruction that enters a handler costs what the entry costs, whatever its opcode says.
def baseCycles (operation : Operation) : Nat :=
  match operation.mnemonic.action with
  | .raise _ => 0
  | _ => operation.cycles.toNat

def run (instruction : Instruction) : Execution μ Unit := do
  charge (baseCycles instruction.operation)
  perform instruction instruction.operation.mnemonic.action

def isHalted : Execution μ Bool := return (← get).interrupts.isHalted

-- Services at most one interrupt, then runs one instruction unless the processor is halted.
def tick (table : OpcodeTable) : Execution μ Unit := do
  let _ ← acknowledge
  unless ← isHalted do
    run (← fetch table)

end Execution

end Console816
