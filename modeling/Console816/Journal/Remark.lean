import Console816.Cartridge
import Console816.Processor

namespace Console816

-- How much a remark matters, most first.
inductive Level where
  | error
  | warn
  | info
  | debug
  | trace
  deriving DecidableEq, Repr

namespace Level

def name : Level → String
  | error => "ERROR"
  | warn => "WARN"
  | info => "INFO"
  | debug => "DEBUG"
  | trace => "TRACE"

def depth : Level → Nat
  | error => 1
  | warn => 2
  | info => 3
  | debug => 4
  | trace => 5

def all : List Level := [error, warn, info, debug, trace]

end Level

-- What is worth noting while a console is set up and run.
inductive Remark where
  -- setting up
  | usingEnvironment
  | readingRom (path : String)
  | strippingCopierHeader
  | headerFound (location : HeaderLocation) (evidence : Evidence)
  | headerMissing
  | cartridgeFound (header : Header) (mapping : Mapping) (romBytes : Nat)
  | romSizeDiffers (declared actual : Nat)
  | sramSizeDiffers (declared provided : Nat)
  | inserting (title : String) (mapping : Mapping)
  | consoleReset
  | processorReset (address : Address)
  -- running
  | entered (interrupt : Interrupt) (address : Address)
  | executing (instruction : Instruction) (registers : Registers)
  | registers (registers : Registers)
  | running (steps : Nat)
  | stoppedAfter (steps : Nat)
  | finished (address : Address) (cycles : UInt64) (frames : Nat)
  | saved (path : String)
  -- writes that are lost
  | romWriteIgnored (value : UInt8) (address : Address) (index : Nat)
  | unmappedWrite (value : UInt8) (address : Address)
  | missingCartridgeWrite (value : UInt8) (address : Address)
  | unansweredWrite (value : UInt8) (address : Address)
  | hdmaIgnored (value : UInt8)
  | ioWriteIgnored (value : UInt8) (offset : UInt16)
  | transferWriteDropped (value : UInt8) (address : Address)
  -- transfers
  | transferring (index : Fin 8) (size : Nat) (a : Address) (towardsA : Bool) (b mode : UInt8)

namespace Remark

def level : Remark → Level
  | headerMissing => .error
  | headerFound _ .mapMode | romSizeDiffers _ _ | sramSizeDiffers _ _ | stoppedAfter _
  | unmappedWrite _ _ => .warn
  | entered _ _ | romWriteIgnored _ _ _ | missingCartridgeWrite _ _ | unansweredWrite _ _
  | hdmaIgnored _ | ioWriteIgnored _ _ | transferWriteDropped _ _
  | transferring _ _ _ _ _ _ => .debug
  | executing _ _ => .trace
  | _ => .info

private def writeOf (value : UInt8) (address : Address) : String :=
  "write of " ++ Text.markedByte value ++ " at " ++ address.text

private def kibibytes (count : Nat) : String := toString count ++ " KiB"

def text : Remark → String
  | usingEnvironment => "Opening ROM from path defined in ROM_PATH"
  | readingRom path => "Reading ROM from file: " ++ path
  | strippingCopierHeader =>
    "Stripping " ++ Text.marked Rom.copierHeaderSize ++ "-byte copier header"
  | headerFound location .checksum =>
    "Internal ROM header found at " ++ location.name ++ " location: " ++
      Text.marked location.offset
  | headerFound location .mapMode =>
    "No internal ROM header with a valid checksum, falling back to " ++ location.name ++
      " location: " ++ Text.marked location.offset
  | headerMissing => "Couldn't find internal ROM header due to invalid checksums and map modes"
  | cartridgeFound header mapping romBytes =>
    "Cartridge \"" ++ header.title ++ "\": " ++ header.mapMode.name ++ " (" ++ mapping.name ++
      "), header at " ++ (mapping.canonicalAddress header.location).text ++ ", " ++
      kibibytes (romBytes / 1024) ++ " ROM, " ++ kibibytes (header.sramBytes / 1024) ++
      " SRAM, region " ++ header.region.elim "unknown" (·.name) ++ ", chips " ++
      header.romType.elim "None" fun romType => "Some(" ++ romType.name ++ ")"
  | romSizeDiffers declared actual =>
    "Header declares " ++ kibibytes declared ++ " of ROM, image has " ++ kibibytes actual
  | sramSizeDiffers declared provided =>
    "Header declares " ++ kibibytes declared ++ " of SRAM, capped to " ++ kibibytes provided
  | inserting title mapping => "Inserting cartridge \"" ++ title ++ "\" (" ++ mapping.name ++ ")"
  | consoleReset => "Console reset"
  | processorReset address => "CPU reset, PC = " ++ address.text
  | entered interrupt address => "Entered " ++ interrupt.name ++ " handler at " ++ address.text
  | executing instruction r =>
    let operand := instruction.operand.text
    let mnemonic := instruction.operation.mnemonic.name
    let words := if operand.isEmpty then mnemonic else mnemonic ++ " " ++ operand
    instruction.address.text ++ " " ++ Text.hexByte instruction.operation.opcode ++ "  " ++
      Text.padRight 16 words ++ " " ++ r.text
  | registers r => r.text
  | running steps => "Running " ++ toString steps ++ " instructions"
  | stoppedAfter steps => "CPU stopped after " ++ toString steps ++ " instructions"
  | finished address cycles frames =>
    "Finished at " ++ address.text ++ " after " ++ toString cycles ++ " cycles and " ++
      toString frames ++ " frames"
  | saved path => "Saved state to " ++ path
  | romWriteIgnored value address index =>
    "Ignored write of " ++ Text.markedByte value ++ " to ROM at " ++ address.text ++ " (" ++
      Text.marked index ++ ")"
  | unmappedWrite value address => "Unmapped cartridge " ++ writeOf value address
  | missingCartridgeWrite value address =>
    "Write of " ++ Text.markedByte value ++ " to " ++ address.text ++ " with no cartridge inserted"
  | unansweredWrite value address =>
    "Open bus write of " ++ Text.markedByte value ++ " to " ++ address.text
  | hdmaIgnored value =>
    "HDMA enable " ++ Text.markedBits value ++ " ignored, HDMA runs on the video side"
  | ioWriteIgnored value offset =>
    "Ignored write of " ++ Text.markedByte value ++ " to I/O register $" ++ Text.hexWord offset
  | transferWriteDropped value address =>
    "DMA write of " ++ Text.markedByte value ++ " to I/O at " ++ address.text ++ " dropped"
  | transferring index size a towardsA b mode =>
    "DMA " ++ toString index.val ++ " size " ++ Text.hex 4 size ++ ": " ++ a.text ++
      (if towardsA then " <= " else " => ") ++ "$21" ++ Text.hexByte b ++ ", mode " ++
      toString mode.toNat

def line (remark : Remark) : String := remark.level.name ++ " " ++ remark.text

end Remark

-- The remarks up to a level, in order. Without a level nothing is noted.
structure Journal where
  level : Option Level := none
  remarks : Array Remark := #[]

namespace Journal

def admits (journal : Journal) (level : Level) : Bool :=
  journal.level.any fun deepest => level.depth ≤ deepest.depth

def note (journal : Journal) (remark : Remark) : Journal :=
  if journal.admits remark.level then { journal with remarks := journal.remarks.push remark }
  else journal

def noteAll (journal : Journal) (remarks : List Remark) : Journal := remarks.foldl note journal

def lines (journal : Journal) : List String := journal.remarks.toList.map Remark.line

end Journal

end Console816
