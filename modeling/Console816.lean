import Console816.Main
import Console816.Memory.AccessLog
import Console816.Proofs.Processor.Lockstep
import Console816.Proofs.Status
import Console816.Proofs.Word
import Console816.Proofs.Registers.Widths
import Console816.Proofs.Processor.StackPage
import Console816.Proofs.Memory.Flat
import Console816.Proofs.Processor.Commands
import Console816.Proofs.Bus.Commands
import Console816.Proofs.Bus.Title
import Console816.Proofs.Console.SaveState
import Console816.Proofs.Processor.FlatStack
import Console816.Proofs.Processor.Nesting
import Console816.Proofs.Console.LoadState
import Console816.Proofs.State.File
import Console816.Proofs.Processor.Requests
import Console816.Proofs.Processor.Halts
import Console816.Proofs.Processor.Courses
import Console816.Proofs.Processor.Operands
import Console816.Proofs.Processor.Dispatch
import Console816.Proofs.Processor.Failures
import Console816.Proofs.Processor.Footprints
import Console816.Proofs.Cartridge.Mapping
import Console816.Proofs.Cartridge.Header
import Console816.Proofs.Bus.Routing
import Console816.Proofs.Bus.RandomAccess
import Console816.Proofs.Console.Reset
import Console816.Proofs.Console.Forgetting
import Console816.Proofs.Arithmetic.Bcd
import Console816.Proofs.Processor.Timing
import Console816.Proofs.Console.Transfers
import Console816.Proofs.Session.VerticalBlanks
import Console816.Proofs.Arithmetic.Bytewise
import Console816.Proofs.Arithmetic.Binary
import Console816.Proofs.Processor.BlockMoves
import Console816.Proofs.Bus.Channels
import Console816.Proofs.Bus.PortCopies
import Console816.Proofs.Bus.StartedTransfers
import Console816.Proofs.Bus.CanonicalAddresses
import Console816.Proofs.Processor.InstructionStream
import Console816.Proofs.Bus.Reads
import Console816.Proofs.Cartridge.Construction
import Console816.Proofs.Processor.HiddenByte
import Console816.Proofs.Processor.NativeTwin
import Console816.Proofs.Instruction.Disassembly
import Console816.Proofs.Bus.PortStreams
import Console816.Proofs.Processor.Resets
import Console816.Proofs.Processor.Rotates
import Console816.Proofs.Processor.StackDiscipline
