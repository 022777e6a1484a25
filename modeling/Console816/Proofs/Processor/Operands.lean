import Console816.Proofs.Processor.Courses
import Console816.Proofs.Registers.CodePosition

namespace Console816

-- What an operand can be used for.
inductive Operand.Kind where
  | none
  | accumulator
  | constant
  | address
  | banks
  deriving DecidableEq

namespace Operand

-- There is something to read, and also to replace.

def Kind.isData : Kind → Bool
  | accumulator | constant | address => true
  | none | banks => false

def Kind.isPlace : Kind → Bool
  | accumulator | address => true
  | none | constant | banks => false

theorem Kind.isData_of_isPlace {kind : Kind} (hplace : kind.isPlace = true) :
    kind.isData = true := by
  cases kind with
  | accumulator | address => rfl
  | none | constant | banks => cases hplace

def kind : Operand → Kind
  | implied => .none
  | accumulator => .accumulator
  | constant _ | byteConstant _ => .constant
  | blockMove _ _ => .banks
  | _ => .address

theorem exists_of_banks {operand : Operand} (hkind : operand.kind = .banks) :
    ∃ target source, operand = .blockMove target source := by
  cases operand with
  | blockMove target source => exact ⟨target, source, rfl⟩
  | _ => cases hkind

-- The bytes that it was read from.
def encoding : Operand → List UInt8
  | implied | accumulator => []
  | byteConstant value => [value]
  | constant value => [Word.low value, Word.high value]
  | relative displacement => [displacement.toUInt8]
  | relativeLong displacement =>
    [Word.low displacement.toUInt16, Word.high displacement.toUInt16]
  | direct offset | directX offset | directY offset | directXIndirect offset
  | directIndirect offset | directIndirectY offset | directIndirectLong offset
  | directIndirectLongY offset | stackRelative offset | stackRelativeIndirectY offset => [offset]
  | absolute offset | absoluteX offset | absoluteY offset | absoluteXIndirect offset
  | absoluteIndirect offset | absoluteIndirectLong offset => [Word.low offset, Word.high offset]
  | long bank offset | longX bank offset => [Word.low offset, Word.high offset, bank]
  | blockMove target source => [target, source]

-- What an index register adds. Narrow ones add their low byte alone.
def indexBy (r : Registers) (register : UInt16) : UInt16 :=
  if r.p.has .narrowIndex then register &&& 0x00FF else register

section Index

variable (r : Registers)

theorem truncate_indexWidth (register : UInt16) :
    r.indexWidth.truncate register = indexBy r register := by
  rw [Registers.indexWidth, Status.indexWidth, indexBy]
  cases r.p.has .narrowIndex with
  | true => rfl
  | false => exact UInt16.and_neg_one

theorem indexX_eq : r.indexX = indexBy r r.x := truncate_indexWidth r r.x

theorem indexY_eq : r.indexY = indexBy r r.y := truncate_indexWidth r r.y

end Index

-- Where the address is that an operand names. A pointer to it is loaded first. Direct page, stack
-- and the pointers of jumps lie in bank 0, but those that are indexed by X in the bank of the
-- program. Offsets wrap inside of their bank. Only a long address carries into the next one when it
-- is indexed.
inductive Finds (r : Registers) : Operand → List Access → Address → Prop
  | relative (displacement : Int8) :
      Finds r (.relative displacement) [] ⟨r.k, r.pc + displacement.toInt16.toUInt16⟩
  | relativeLong (displacement : Int16) :
      Finds r (.relativeLong displacement) [] ⟨r.k, r.pc + displacement.toUInt16⟩
  | direct (offset : UInt8) : Finds r (.direct offset) [] ⟨0, r.d + offset.toUInt16⟩
  | directX (offset : UInt8) :
      Finds r (.directX offset) [] ⟨0, r.d + offset.toUInt16 + indexBy r r.x⟩
  | directY (offset : UInt8) :
      Finds r (.directY offset) [] ⟨0, r.d + offset.toUInt16 + indexBy r r.y⟩
  | directXIndirect (offset low high : UInt8) :
      Finds r (.directXIndirect offset)
        (Address.loads ⟨0, r.d + offset.toUInt16 + indexBy r r.x⟩ [low, high])
        ⟨r.dbr, Word.join low high⟩
  | directIndirect (offset low high : UInt8) :
      Finds r (.directIndirect offset) (Address.loads ⟨0, r.d + offset.toUInt16⟩ [low, high])
        ⟨r.dbr, Word.join low high⟩
  | directIndirectY (offset low high : UInt8) :
      Finds r (.directIndirectY offset) (Address.loads ⟨0, r.d + offset.toUInt16⟩ [low, high])
        ⟨r.dbr, Word.join low high + indexBy r r.y⟩
  | directIndirectLong (offset low high bank : UInt8) :
      Finds r (.directIndirectLong offset)
        (Address.loads ⟨0, r.d + offset.toUInt16⟩ [low, high, bank]) ⟨bank, Word.join low high⟩
  | directIndirectLongY (offset low high bank : UInt8) {address : Address}
      (hraw : address.raw =
        (Address.raw ⟨bank, Word.join low high⟩ + (indexBy r r.y).toNat) % 0x1000000)
      (hbank : address.bank = bank ∨ address.bank = bank + 1) :
      Finds r (.directIndirectLongY offset)
        (Address.loads ⟨0, r.d + offset.toUInt16⟩ [low, high, bank]) address
  | absolute (offset : UInt16) : Finds r (.absolute offset) [] ⟨r.dbr, offset⟩
  | absoluteX (offset : UInt16) : Finds r (.absoluteX offset) [] ⟨r.dbr, offset + indexBy r r.x⟩
  | absoluteY (offset : UInt16) : Finds r (.absoluteY offset) [] ⟨r.dbr, offset + indexBy r r.y⟩
  | absoluteXIndirect (offset : UInt16) (low high : UInt8) :
      Finds r (.absoluteXIndirect offset)
        (Address.loads ⟨r.k, offset + indexBy r r.x⟩ [low, high]) ⟨r.k, Word.join low high⟩
  | absoluteIndirect (offset : UInt16) (low high : UInt8) :
      Finds r (.absoluteIndirect offset) (Address.loads ⟨0, offset⟩ [low, high])
        ⟨r.k, Word.join low high⟩
  | absoluteIndirectLong (offset : UInt16) (low high bank : UInt8) :
      Finds r (.absoluteIndirectLong offset) (Address.loads ⟨0, offset⟩ [low, high, bank])
        ⟨bank, Word.join low high⟩
  | long (bank : UInt8) (offset : UInt16) : Finds r (.long bank offset) [] ⟨bank, offset⟩
  | longX (bank : UInt8) (offset : UInt16) {address : Address}
      (hraw : address.raw = (Address.raw ⟨bank, offset⟩ + (indexBy r r.x).toNat) % 0x1000000)
      (hbank : address.bank = bank ∨ address.bank = bank + 1) :
      Finds r (.longX bank offset) [] address
  | stackRelative (offset : UInt8) :
      Finds r (.stackRelative offset) [] ⟨0, r.s + offset.toUInt16⟩
  | stackRelativeIndirectY (offset low high : UInt8) :
      Finds r (.stackRelativeIndirectY offset)
        (Address.loads ⟨0, r.s + offset.toUInt16⟩ [low, high])
        ⟨r.dbr, Word.join low high + indexBy r r.y⟩

-- Where the data is that an operand stands for.
inductive Locates (r : Registers) : Operand → List Access → Location → Prop
  | accumulator : Locates r .accumulator [] .accumulator
  | constant (value : UInt16) : Locates r (.constant value) [] (.constant value)
  | byteConstant (value : UInt8) : Locates r (.byteConstant value) [] (.constant value.toUInt16)
  | memory {operand : Operand} {pointer : List Access} {address : Address}
      (hfinds : Finds r operand pointer address) : Locates r operand pointer (.memory address)

theorem Locates.finds {r : Registers} {operand : Operand} {pointer : List Access}
    {location : Location} (hlocates : operand.Locates r pointer location)
    (hkind : operand.kind = .address) :
    ∃ address, location = .memory address ∧ operand.Finds r pointer address := by
  cases hlocates with
  | accumulator | constant | byteConstant => cases hkind
  | memory hfinds => exact ⟨_, rfl, hfinds⟩

theorem Locates.not_constant {r : Registers} {operand : Operand} {pointer : List Access}
    {location : Location} (hlocates : operand.Locates r pointer location)
    (hplace : operand.kind.isPlace = true) : location.isConstant = false := by
  cases hlocates with
  | accumulator | memory => rfl
  | constant | byteConstant => cases hplace

end Operand

-- The data at a location, and the loads that it takes to get it.
inductive Location.Holds (r : Registers) (width : Width) :
    Location → UInt16 → List Access → Prop
  | accumulator : Holds r width .accumulator (width.truncate r.a) []
  | constant (value : UInt16) : Holds r width (.constant value) (width.truncate value) []
  | memory (address : Address) {value : UInt16} (hvalue : width.truncate value = value) :
      Holds r width (.memory address) value (address.loads (width.encode value))

-- The stores that it takes to replace it, low byte first.
def Location.stores : Location → Width → UInt16 → List Access
  | .memory address, width, value => address.stores (width.encode value)
  | _, _, _ => []

namespace Mode

def kind : Mode → Operand.Kind
  | implied => .none
  | accumulator => .accumulator
  | accumulatorConstant | indexConstant | byteConstant => .constant
  | blockMove => .banks
  | _ => .address

-- Which operands a mode can give. The widths decide on the constants of one and of two bytes.
def Decodes (p : Status) (mode : Mode) : Operand → Prop
  | .implied => mode = implied
  | .accumulator => mode = accumulator
  | .constant _ =>
    mode = accumulatorConstant ∧ p.accumulatorWidth = .word ∨
      mode = indexConstant ∧ p.indexWidth = .word
  | .byteConstant _ =>
    mode = byteConstant ∨ mode = accumulatorConstant ∧ p.accumulatorWidth = .byte ∨
      mode = indexConstant ∧ p.indexWidth = .byte
  | .relative _ => mode = relative
  | .relativeLong _ => mode = relativeLong
  | .direct _ => mode = direct
  | .directX _ => mode = directX
  | .directY _ => mode = directY
  | .directXIndirect _ => mode = directXIndirect
  | .directIndirect _ => mode = directIndirect
  | .directIndirectY _ => mode = directIndirectY
  | .directIndirectLong _ => mode = directIndirectLong
  | .directIndirectLongY _ => mode = directIndirectLongY
  | .absolute _ => mode = absolute
  | .absoluteX _ => mode = absoluteX
  | .absoluteY _ => mode = absoluteY
  | .absoluteXIndirect _ => mode = absoluteXIndirect
  | .absoluteIndirect _ => mode = absoluteIndirect
  | .absoluteIndirectLong _ => mode = absoluteIndirectLong
  | .long _ _ => mode = long
  | .longX _ _ => mode = longX
  | .stackRelative _ => mode = stackRelative
  | .stackRelativeIndirectY _ => mode = stackRelativeIndirectY
  | .blockMove _ _ => mode = blockMove

variable {p : Status} {mode : Mode} {operand : Operand}

theorem kind_eq_of_decodes (hdecodes : mode.Decodes p operand) : operand.kind = mode.kind := by
  cases operand with
  | constant => rcases hdecodes with ⟨rfl, -⟩ | ⟨rfl, -⟩ <;> rfl
  | byteConstant => rcases hdecodes with rfl | ⟨rfl, -⟩ | ⟨rfl, -⟩ <;> rfl
  | _ => cases hdecodes; rfl

theorem exists_of_byteConstant (hdecodes : byteConstant.Decodes p operand) :
    ∃ value, operand = .byteConstant value := by
  cases operand with
  | byteConstant value => exact ⟨value, rfl⟩
  | constant => rcases hdecodes with ⟨h, -⟩ | ⟨h, -⟩ <;> cases h
  | _ => cases hdecodes

-- What an operand is decoded from does not depend on flags but those of the widths.
theorem decodes_of_sameWidths {p' : Status} (hwidths : p'.SameWidths p)
    (hdecodes : mode.Decodes p operand) : mode.Decodes p' operand := by
  have haccumulator : p'.accumulatorWidth = p.accumulatorWidth := by
    rw [Status.accumulatorWidth, Status.accumulatorWidth, hwidths.1]
  have hindex : p'.indexWidth = p.indexWidth := by
    rw [Status.indexWidth, Status.indexWidth, hwidths.2]
  cases operand with
  | constant | byteConstant =>
      simp only [Decodes, haccumulator, hindex] at hdecodes ⊢
      exact hdecodes
  | _ => exact hdecodes

end Mode

namespace Address

theorem toNat_bank_advanceLong (base : Address) (n : Nat) :
    (base.advanceLong n).bank.toNat = (base.raw + n) / 0x10000 % 0x100 :=
  UInt8.toNat_ofNat'

theorem raw_advanceLong (base : Address) (n : Nat) :
    (base.advanceLong n).raw = (base.raw + n) % 0x1000000 := by
  have hoffset : (base.advanceLong n).offset.toNat = (base.raw + n) % 0x10000 :=
    UInt16.toNat_ofNat'
  rw [raw, toNat_bank_advanceLong, hoffset]
  omega

-- An index does not reach past the next bank.
theorem bank_advanceLong (base : Address) (index : UInt16) :
    (base.advanceLong index.toNat).bank = base.bank ∨
      (base.advanceLong index.toNat).bank = base.bank + 1 := by
  have hbank := base.bank.toNat_lt
  have hoffset := base.offset.toNat_lt
  have hindex := index.toNat_lt
  have hsum := toNat_bank_advanceLong base index.toNat
  simp only [← UInt8.toNat_inj, UInt8.toNat_add, UInt8.reduceToNat, raw] at hsum ⊢
  omega

end Address

namespace Execution.Takes

variable {μ : Type} [Memory μ] {r : Registers}

-- Operand bytes follow the opcode.

theorem operandByte (opcodeAt : Address) (index : UInt16) :
    Takes (operandByte opcodeAt index : Execution (AccessLog μ) UInt8) r fun value after made =>
      after = r ∧ made = (opcodeAt.advance (1 + index)).loads [value] :=
  loadByte _

theorem operandWord (opcodeAt : Address) :
    Takes (operandWord opcodeAt : Execution (AccessLog μ) UInt16) r fun value after made =>
      after = r ∧ made = (opcodeAt.advance 1).loads [Word.low value, Word.high value] := by
  refine (operandByte opcodeAt 0).bind ?_
  rintro low _ _ ⟨rfl, rfl⟩
  refine (operandByte opcodeAt 1).bind ?_
  rintro high _ _ ⟨rfl, rfl⟩
  exact .pure ⟨rfl, by simp [Address.advance_advance]⟩

theorem operandLong (opcodeAt : Address) :
    Takes (operandLong opcodeAt : Execution (AccessLog μ) Address) r fun value after made =>
      after = r ∧ made = (opcodeAt.advance 1).loads [value.low, value.high, value.bank] := by
  refine (operandWord opcodeAt).bind ?_
  rintro offset _ _ ⟨rfl, rfl⟩
  refine (operandByte opcodeAt 2).bind ?_
  rintro bank _ _ ⟨rfl, rfl⟩
  exact .pure ⟨rfl, by simp [Address.advance_advance, Address.low, Address.high]⟩

theorem decodeOperand (opcodeAt : Address) (mode : Mode) :
    Takes (decodeOperand opcodeAt mode : Execution (AccessLog μ) Operand) r
      fun operand after made =>
        after = r ∧ mode.Decodes r.p operand ∧
          made = (opcodeAt.advance 1).loads operand.encoding := by
  have hbyte {operand : UInt8 → Operand} (hdecodes : ∀ value, mode.Decodes r.p (operand value))
      (hencoding : ∀ value, (operand value).encoding = [value]) :
      Takes (do return operand (← Execution.operandByte opcodeAt 0) :
        Execution (AccessLog μ) Operand) r fun operand after made =>
          after = r ∧ mode.Decodes r.p operand ∧
            made = (opcodeAt.advance 1).loads operand.encoding := by
    refine (operandByte opcodeAt 0).bind ?_
    rintro value _ _ ⟨rfl, rfl⟩
    exact .pure ⟨rfl, hdecodes value, by simp [hencoding]⟩
  have hword {operand : UInt16 → Operand} (hdecodes : ∀ value, mode.Decodes r.p (operand value))
      (hencoding : ∀ value, (operand value).encoding = [Word.low value, Word.high value]) :
      Takes (do return operand (← Execution.operandWord opcodeAt) :
        Execution (AccessLog μ) Operand) r fun operand after made =>
          after = r ∧ mode.Decodes r.p operand ∧
            made = (opcodeAt.advance 1).loads operand.encoding := by
    refine (operandWord opcodeAt).bind ?_
    rintro value _ _ ⟨rfl, rfl⟩
    exact .pure ⟨rfl, hdecodes value, by simp [hencoding]⟩
  cases mode with
  | implied | accumulator => exact .pure ⟨rfl, rfl, rfl⟩
  | accumulatorConstant =>
      refine registers_bind ?_
      cases hwidth : r.accumulatorWidth with
      | byte => exact hbyte (fun _ => .inr (.inl ⟨rfl, hwidth⟩)) fun _ => rfl
      | word => exact hword (fun _ => .inl ⟨rfl, hwidth⟩) fun _ => rfl
  | indexConstant =>
      refine registers_bind ?_
      cases hwidth : r.indexWidth with
      | byte => exact hbyte (fun _ => .inr (.inr ⟨rfl, hwidth⟩)) fun _ => rfl
      | word => exact hword (fun _ => .inr ⟨rfl, hwidth⟩) fun _ => rfl
  | byteConstant => exact hbyte (fun _ => .inl rfl) fun _ => rfl
  | relative => exact hbyte (fun _ => rfl) fun _ => rfl
  | relativeLong => exact hword (fun _ => rfl) fun _ => rfl
  | absolute | absoluteX | absoluteY | absoluteXIndirect | absoluteIndirect
  | absoluteIndirectLong => exact hword (fun _ => rfl) fun _ => rfl
  | long | longX =>
      refine (operandLong opcodeAt).bind ?_
      rintro target _ _ ⟨rfl, rfl⟩
      exact .pure ⟨rfl, rfl, List.append_nil _⟩
  | blockMove =>
      refine (operandByte opcodeAt 0).bind ?_
      rintro target _ _ ⟨rfl, rfl⟩
      refine (operandByte opcodeAt 1).bind ?_
      rintro source _ _ ⟨rfl, rfl⟩
      exact .pure ⟨rfl, rfl, by simp [Operand.encoding, Address.advance_advance]⟩
  | _ => exact hbyte (fun _ => rfl) fun _ => rfl

-- Finding data.

theorem effectiveAddress {operand : Operand} (hkind : operand.kind = .address) :
    Takes (effectiveAddress r operand : Execution (AccessLog μ) (Option Address)) r
      fun found after made =>
        after = r ∧ ∃ address, found = some address ∧ operand.Finds r made address := by
  have hword {base : Address} {target : UInt16 → Address}
      (hfinds : ∀ low high,
        operand.Finds r (base.loads [low, high]) (target (Word.join low high))) :
      Takes (do
          let pointer ← Execution.loadWord base
          return some (target pointer) : Execution (AccessLog μ) (Option Address)) r
        fun found after made =>
          after = r ∧ ∃ address, found = some address ∧ operand.Finds r made address := by
    refine (loadWord base).bind ?_
    rintro pointer _ _ ⟨rfl, rfl⟩
    refine .pure ⟨rfl, _, rfl, ?_⟩
    rw [List.append_nil, ← Word.join_low_high pointer]
    simpa using hfinds (Word.low pointer) (Word.high pointer)
  have hlong {base : Address} {target : Address → Address}
      (hfinds : ∀ low high bank,
        operand.Finds r (base.loads [low, high, bank]) (target ⟨bank, Word.join low high⟩)) :
      Takes (do
          let pointer ← Execution.loadLong base
          return some (target pointer) : Execution (AccessLog μ) (Option Address)) r
        fun found after made =>
          after = r ∧ ∃ address, found = some address ∧ operand.Finds r made address := by
    refine (loadLong base).bind ?_
    rintro pointer _ _ ⟨rfl, rfl⟩
    refine .pure ⟨rfl, _, rfl, ?_⟩
    have hpointer := hfinds pointer.low pointer.high pointer.bank
    rw [Address.low, Address.high, Word.join_low_high] at hpointer
    rwa [List.append_nil]
  unfold Execution.effectiveAddress
  rw [Operand.indexX_eq, Operand.indexY_eq]
  cases operand with
  | implied | accumulator | constant | byteConstant | blockMove => cases hkind
  | relative displacement => exact .pure ⟨rfl, _, rfl, .relative displacement⟩
  | relativeLong displacement => exact .pure ⟨rfl, _, rfl, .relativeLong displacement⟩
  | direct offset => exact .pure ⟨rfl, _, rfl, .direct offset⟩
  | directX offset => exact .pure ⟨rfl, _, rfl, .directX offset⟩
  | directY offset => exact .pure ⟨rfl, _, rfl, .directY offset⟩
  | directXIndirect offset => exact hword (.directXIndirect offset)
  | directIndirect offset => exact hword (.directIndirect offset)
  | directIndirectY offset => exact hword (.directIndirectY offset)
  | directIndirectLong offset => exact hlong (.directIndirectLong offset)
  | directIndirectLongY offset =>
      exact hlong fun low high bank => .directIndirectLongY offset low high bank
        (Address.raw_advanceLong ..) (Address.bank_advanceLong ..)
  | absolute offset => exact .pure ⟨rfl, _, rfl, .absolute offset⟩
  | absoluteX offset => exact .pure ⟨rfl, _, rfl, .absoluteX offset⟩
  | absoluteY offset => exact .pure ⟨rfl, _, rfl, .absoluteY offset⟩
  | absoluteXIndirect offset => exact hword (.absoluteXIndirect offset)
  | absoluteIndirect offset => exact hword (.absoluteIndirect offset)
  | absoluteIndirectLong offset => exact hlong (.absoluteIndirectLong offset)
  | long bank offset => exact .pure ⟨rfl, _, rfl, .long bank offset⟩
  | longX bank offset =>
      exact .pure ⟨rfl, _, rfl, .longX bank offset (Address.raw_advanceLong ..)
        (Address.bank_advanceLong ..)⟩
  | stackRelative offset => exact .pure ⟨rfl, _, rfl, .stackRelative offset⟩
  | stackRelativeIndirectY offset => exact hword (.stackRelativeIndirectY offset)

theorem locate {instruction : Instruction} (hdata : instruction.operand.kind.isData = true) :
    Takes (locate instruction : Execution (AccessLog μ) Location) r fun location after made =>
      after = r ∧ instruction.operand.Locates r made location := by
  obtain ⟨operation, opcodeAt, operand⟩ := instruction
  cases operand with
  | implied | blockMove => cases hdata
  | accumulator => exact .pure ⟨rfl, .accumulator⟩
  | constant value => exact .pure ⟨rfl, .constant value⟩
  | byteConstant value => exact .pure ⟨rfl, .byteConstant value⟩
  | _ =>
      refine registers_bind (charge_bind ((effectiveAddress rfl).bind ?_))
      rintro _ _ made ⟨rfl, address, rfl, hfinds⟩
      rw [← List.append_nil made] at hfinds
      exact .pure ⟨rfl, .memory hfinds⟩

theorem locateAddress {instruction : Instruction} (hkind : instruction.operand.kind = .address) :
    Takes (locateAddress instruction : Execution (AccessLog μ) Address) r fun address after made =>
      after = r ∧ instruction.operand.Finds r made address := by
  refine (locate (by rw [hkind]; rfl)).bind ?_
  rintro location _ made ⟨rfl, hlocates⟩
  obtain ⟨address, rfl, hfinds⟩ := hlocates.finds hkind
  exact .pure ⟨rfl, by rwa [List.append_nil]⟩

theorem read (location : Location) (width : Width) :
    Takes (read location width : Execution (AccessLog μ) UInt16) r fun value after made =>
      after = r ∧ location.Holds r width value made := by
  cases location with
  | accumulator => exact registers_bind (.pure ⟨rfl, .accumulator⟩)
  | constant value => exact .pure ⟨rfl, .constant value⟩
  | memory address =>
      refine (load address width).mono ?_
      rintro value _ _ ⟨rfl, hvalue, rfl⟩
      exact ⟨rfl, .memory address hvalue⟩

theorem write (operation : Operation) {location : Location}
    (hconstant : location.isConstant = false) (width : Width) (value : UInt16) :
    Takes (write operation location width value : Execution (AccessLog μ) Unit) r
      fun _ after made => r.SameCode after ∧ made = location.stores width value := by
  cases location with
  | accumulator => exact modifyRegisters ⟨⟨rfl, rfl⟩, rfl⟩
  | constant => cases hconstant
  | memory address =>
      refine (store address value width).mono ?_
      rintro _ _ _ ⟨rfl, hmade⟩
      exact ⟨.refl _, hmade⟩

end Execution.Takes

end Console816
