import Console816.Journal.Remark
import Console816.Proofs.Processor.Dispatch
import Console816.Proofs.Text.Figures
import Mathlib.Data.List.Nodup

namespace Console816

namespace Mode

-- The marks around the figures of an operand that is written in hexadecimal.
def marks : Mode → List Char
  | implied => []
  | accumulator => ['a']
  | byteConstant | accumulatorConstant | indexConstant => ['#', '$']
  | direct | absolute => ['$']
  | directX | absoluteX => ['$', ',', 'x']
  | directY | absoluteY => ['$', ',', 'y']
  | directXIndirect | absoluteXIndirect => ['(', '$', ',', 'x', ')']
  | directIndirect | absoluteIndirect => ['(', '$', ')']
  | directIndirectY => ['(', '$', ')', ',', 'y']
  | directIndirectLong | absoluteIndirectLong => ['[', '$', ']']
  | directIndirectLongY => ['[', '$', ']', ',', 'y']
  | long => ['$', ':']
  | longX => ['$', ':', ',', 'x']
  | stackRelative => ['$', ',', 's']
  | stackRelativeIndirectY => ['(', '$', ',', 's', ')', ',', 'y']
  | blockMove => ['$', ',', '$']
  | relative | relativeLong => []

-- The modes that tell such operands apart.
def spellings : List Mode :=
  [implied, accumulator, byteConstant, accumulatorConstant, direct, directX, directY,
    directXIndirect, directIndirect, directIndirectY, directIndirectLong, directIndirectLongY,
    absolute, absoluteX, absoluteY, absoluteXIndirect, absoluteIndirect, absoluteIndirectLong,
    long, longX, stackRelative, stackRelativeIndirectY, blockMove]

-- The marks and the number of the figures are different for each.
theorem nodup_spellings :
    (spellings.map fun mode => (mode.marks, mode.operandBytes)).Nodup := by
  decide

-- No such operand is written with a sign.
theorem unsigned_spellings : ∀ mode ∈ spellings, mode.marks ≠ ['+'] ∧ mode.marks ≠ ['-'] := by
  decide

-- The operand of a mode from its bytes.
def operand? : Mode → List UInt8 → Option Operand
  | implied, [] => some .implied
  | accumulator, [] => some .accumulator
  | byteConstant, [value] => some (.byteConstant value)
  | accumulatorConstant, [low, high] => some (.constant (Word.join low high))
  | direct, [offset] => some (.direct offset)
  | directX, [offset] => some (.directX offset)
  | directY, [offset] => some (.directY offset)
  | directXIndirect, [offset] => some (.directXIndirect offset)
  | directIndirect, [offset] => some (.directIndirect offset)
  | directIndirectY, [offset] => some (.directIndirectY offset)
  | directIndirectLong, [offset] => some (.directIndirectLong offset)
  | directIndirectLongY, [offset] => some (.directIndirectLongY offset)
  | absolute, [low, high] => some (.absolute (Word.join low high))
  | absoluteX, [low, high] => some (.absoluteX (Word.join low high))
  | absoluteY, [low, high] => some (.absoluteY (Word.join low high))
  | absoluteXIndirect, [low, high] => some (.absoluteXIndirect (Word.join low high))
  | absoluteIndirect, [low, high] => some (.absoluteIndirect (Word.join low high))
  | absoluteIndirectLong, [low, high] => some (.absoluteIndirectLong (Word.join low high))
  | long, [low, high, bank] => some (.long bank (Word.join low high))
  | longX, [low, high, bank] => some (.longX bank (Word.join low high))
  | stackRelative, [offset] => some (.stackRelative offset)
  | stackRelativeIndirectY, [offset] => some (.stackRelativeIndirectY offset)
  | blockMove, [target, source] => some (.blockMove target source)
  | _, _ => none

end Mode

namespace Operand

-- How far a branch goes, which is written in decimal.
def displacement? : Operand → Option Int
  | relative displacement => some displacement.toInt
  | relativeLong displacement => some displacement.toInt
  | _ => none

-- The mode that it is written for. A constant of one byte is the same for all modes.
def spelling : Operand → Mode
  | implied => .implied
  | accumulator => .accumulator
  | constant _ => .accumulatorConstant
  | byteConstant _ => .byteConstant
  | relative _ => .relative
  | relativeLong _ => .relativeLong
  | direct _ => .direct
  | directX _ => .directX
  | directY _ => .directY
  | directXIndirect _ => .directXIndirect
  | directIndirect _ => .directIndirect
  | directIndirectY _ => .directIndirectY
  | directIndirectLong _ => .directIndirectLong
  | directIndirectLongY _ => .directIndirectLongY
  | absolute _ => .absolute
  | absoluteX _ => .absoluteX
  | absoluteY _ => .absoluteY
  | absoluteXIndirect _ => .absoluteXIndirect
  | absoluteIndirect _ => .absoluteIndirect
  | absoluteIndirectLong _ => .absoluteIndirectLong
  | long _ _ => .long
  | longX _ _ => .longX
  | stackRelative _ => .stackRelative
  | stackRelativeIndirectY _ => .stackRelativeIndirectY
  | blockMove _ _ => .blockMove

theorem text_of_displacement {operand : Operand} {distance : Int}
    (hdisplacement : operand.displacement? = some distance) :
    operand.text = Text.signed distance := by
  cases operand with
  | relative | relativeLong =>
      cases hdisplacement
      rfl
  | _ => cases hdisplacement

section Hexadecimal

variable {operand : Operand} (hhex : operand.displacement? = none)
include hhex

theorem mem_spellings : operand.spelling ∈ Mode.spellings := by
  cases operand with
  | relative | relativeLong => cases hhex
  | _ => simp [spelling, Mode.spellings]

theorem length_encoding : operand.encoding.length = operand.spelling.operandBytes := by
  cases operand with
  | relative | relativeLong => cases hhex
  | _ => rfl

-- Mode and bytes are all there is to an operand.
theorem operand?_spelling : operand.spelling.operand? operand.encoding = some operand := by
  cases operand with
  | relative | relativeLong => cases hhex
  | constant value | absolute value | absoluteX value | absoluteY value | absoluteXIndirect value
  | absoluteIndirect value | absoluteIndirectLong value | long _ value | longX _ value =>
      simp [spelling, encoding, Mode.operand?]
  | _ => rfl

theorem spelled_text :
    Text.Spelled operand.text (Text.hexFigures operand.encoding) operand.spelling.marks := by
  have mark (text : String) (hfigures : text.toList.filter Text.isFigure = [] := by decide) :=
    Text.Spelled.of_marks hfigures
  have byte (value : UInt8) := (mark "$").append (.byte value)
  have word (value : UInt16) := (mark "$").append (.word value)
  cases operand with
  | relative | relativeLong => cases hhex
  | implied => exact mark ""
  | accumulator => exact mark "a"
  | byteConstant value => exact (mark "#").append (byte value)
  | constant value => exact (mark "#").append (word value)
  | direct offset => exact byte offset
  | directX offset => exact (byte offset).append (mark ",x")
  | directY offset => exact (byte offset).append (mark ",y")
  | directXIndirect offset => exact ((mark "(").append (byte offset)).append (mark ",x)")
  | directIndirect offset => exact ((mark "(").append (byte offset)).append (mark ")")
  | directIndirectY offset => exact ((mark "(").append (byte offset)).append (mark "),y")
  | directIndirectLong offset => exact ((mark "[").append (byte offset)).append (mark "]")
  | directIndirectLongY offset => exact ((mark "[").append (byte offset)).append (mark "],y")
  | absolute offset => exact word offset
  | absoluteX offset => exact (word offset).append (mark ",x")
  | absoluteY offset => exact (word offset).append (mark ",y")
  | absoluteXIndirect offset => exact ((mark "(").append (word offset)).append (mark ",x)")
  | absoluteIndirect offset => exact ((mark "(").append (word offset)).append (mark ")")
  | absoluteIndirectLong offset => exact ((mark "[").append (word offset)).append (mark "]")
  | long bank offset => exact ((byte bank).append (mark ":")).append (.word offset)
  | longX bank offset =>
      exact (((byte bank).append (mark ":")).append (.word offset)).append (mark ",x")
  | stackRelative offset => exact (byte offset).append (mark ",s")
  | stackRelativeIndirectY offset =>
      exact ((mark "(").append (byte offset)).append (mark ",s),y")
  | blockMove target source => exact ((byte source).append (mark ",")).append (byte target)

end Hexadecimal

-- A short and a long branch by the same distance.
def SameDistance (operand other : Operand) : Prop :=
  ∃ (short : Int8) (long : Int16), short.toInt = long.toInt ∧
    operand = .relative short ∧ other = .relativeLong long

theorem eq_or_sameDistance {operand other : Operand} {distance : Int}
    (hdisplacement : operand.displacement? = some distance)
    (hother : other.displacement? = some distance) :
    operand = other ∨ operand.SameDistance other ∨ other.SameDistance operand := by
  cases operand with
  | relative short =>
      cases other with
      | relative short' =>
          rw [← hother] at hdisplacement
          exact .inl (congrArg relative (Int8.toInt_inj.mp (Option.some.inj hdisplacement)))
      | relativeLong long =>
          rw [← hother] at hdisplacement
          exact .inr (.inl ⟨short, long, Option.some.inj hdisplacement, rfl, rfl⟩)
      | _ => cases hother
  | relativeLong long =>
      cases other with
      | relative short =>
          rw [← hdisplacement] at hother
          exact .inr (.inr ⟨short, long, Option.some.inj hother, rfl, rfl⟩)
      | relativeLong long' =>
          rw [← hother] at hdisplacement
          exact .inl (congrArg relativeLong (Int16.toInt_inj.mp (Option.some.inj hdisplacement)))
      | _ => cases hother
  | _ => cases hdisplacement

-- Hexadecimal has no signs.
theorem text_ne_signed {operand : Operand} (hhex : operand.displacement? = none) (distance : Int) :
    operand.text ≠ Text.signed distance := by
  intro hsame
  have hmarks := (spelled_text hhex).marks
  rw [hsame, Text.marks_signed] at hmarks
  obtain ⟨hplus, hminus⟩ := Mode.unsigned_spellings _ (mem_spellings hhex)
  split at hmarks
  · exact hminus hmarks.symm
  · exact hplus hmarks.symm

theorem eq_of_text {operand other : Operand} (hhex : operand.displacement? = none)
    (hother : other.displacement? = none) (htext : operand.text = other.text) :
    operand = other := by
  have hspelled := spelled_text hhex
  rw [htext] at hspelled
  have hbytes : operand.encoding = other.encoding :=
    Text.hexFigures_inj (hspelled.figures.symm.trans (spelled_text hother).figures)
  have hmarks : operand.spelling.marks = other.spelling.marks :=
    hspelled.marks.symm.trans (spelled_text hother).marks
  have hlength : operand.spelling.operandBytes = other.spelling.operandBytes := by
    rw [← length_encoding hhex, ← length_encoding hother, hbytes]
  have hspelling : operand.spelling = other.spelling :=
    List.inj_on_of_nodup_map Mode.nodup_spellings (mem_spellings hhex) (mem_spellings hother)
      (Prod.ext hmarks hlength)
  have hoperand := operand?_spelling hhex
  rw [hspelling, hbytes, operand?_spelling hother] at hoperand
  exact (Option.some.inj hoperand).symm

theorem text_eq_iff (operand other : Operand) :
    operand.text = other.text ↔
      operand = other ∨ operand.SameDistance other ∨ other.SameDistance operand := by
  constructor
  · intro htext
    cases hdisplacement : operand.displacement? with
    | none =>
        cases hother : other.displacement? with
        | none => exact .inl (eq_of_text hdisplacement hother htext)
        | some distance =>
            rw [text_of_displacement hother] at htext
            exact absurd htext (text_ne_signed hdisplacement distance)
    | some distance =>
        rw [text_of_displacement hdisplacement] at htext
        cases hother : other.displacement? with
        | none => exact absurd htext.symm (text_ne_signed hother distance)
        | some distance' =>
            rw [text_of_displacement hother] at htext
            obtain rfl := Text.signed_inj htext
            exact eq_or_sameDistance hdisplacement hother
  · rintro (rfl | ⟨short, long, hdistance, rfl, rfl⟩ | ⟨short, long, hdistance, rfl, rfl⟩)
    · rfl
    · exact congrArg Text.signed hdistance
    · exact congrArg Text.signed hdistance.symm

end Operand

namespace Mode

-- Constants are written alike in all modes that have them, and so are distances.
def shape : Mode → Mode
  | accumulatorConstant | indexConstant => byteConstant
  | relativeLong => relative
  | mode => mode

theorem shape_of_decodes {p : Status} {mode : Mode} {operand : Operand}
    (hdecodes : mode.Decodes p operand) : mode.shape = operand.spelling.shape := by
  cases operand with
  | constant => rcases hdecodes with ⟨rfl, -⟩ | ⟨rfl, -⟩ <;> rfl
  | byteConstant => rcases hdecodes with rfl | ⟨rfl, -⟩ | ⟨rfl, -⟩ <;> rfl
  | _ =>
      cases hdecodes
      rfl

end Mode

-- Operands that are written alike have the same shape, even where they differ.
theorem Operand.shape_of_text {operand other : Operand} (htext : operand.text = other.text) :
    operand.spelling.shape = other.spelling.shape := by
  rcases (text_eq_iff operand other).mp htext with
    rfl | ⟨short, long, -, rfl, rfl⟩ | ⟨short, long, -, rfl, rfl⟩ <;> rfl

namespace Mnemonic

theorem length_name (mnemonic : Mnemonic) : mnemonic.name.toList.length = 3 := by
  cases mnemonic <;> rfl

-- Five bits for each letter.
def key (name : String) : Nat :=
  name.toList.foldl (fun key letter => 0x20 * key + letter.toNat % 0x20) 0

end Mnemonic

namespace OpcodeTable

-- No key comes twice. The bits of `seen` are the keys that came before.
def areFresh (seen : Nat) : List Nat → Bool
  | [] => true
  | key :: rest => !seen.testBit key && areFresh (seen ||| 1 <<< key) rest

theorem nodup_of_areFresh {seen : Nat} {keys : List Nat} (hfresh : areFresh seen keys = true) :
    keys.Nodup ∧ ∀ key ∈ keys, seen.testBit key = false := by
  induction keys generalizing seen with
  | nil => exact ⟨List.nodup_nil, nofun⟩
  | cons key rest ih =>
      simp only [areFresh, Bool.and_eq_true, Bool.not_eq_true'] at hfresh
      obtain ⟨hrest, hlater⟩ := ih hfresh.2
      have hunseen (later : Nat) (hmem : later ∈ rest) :
          seen.testBit later = false ∧ key ≠ later := by
        have hbit := hlater later hmem
        rw [Nat.testBit_or, Bool.or_eq_false_iff, Nat.testBit_shiftLeft] at hbit
        refine ⟨hbit.1, fun heq => ?_⟩
        simp [heq] at hbit
      refine ⟨List.nodup_cons.mpr ⟨fun hmem => (hunseen key hmem).2 rfl, hrest⟩, ?_⟩
      rintro later (_ | ⟨_, hmem⟩)
      · exact hfresh.1
      · exact (hunseen later hmem).1

def rowKey (row : Mnemonic × Mode × UInt8) : Nat :=
  0x20 * Mnemonic.key row.1.name + row.2.1.shape.ctorIdx

theorem nodup_rowKey : (matrix.toList.map rowKey).Nodup := by
  have hfresh : areFresh 0 (matrix.toList.map rowKey) = true := by decide +kernel
  exact (nodup_of_areFresh hfresh).1

theorem getElem?_rowKey {opcode : Nat} {row : Mnemonic × Mode × UInt8}
    (hrow : matrix[opcode]? = some row) :
    (matrix.toList.map rowKey)[opcode]? = some (rowKey row) := by
  rw [List.getElem?_map, Array.getElem?_toList, hrow, Option.map_some]

-- Mnemonic and shape tell the operations of the standard table apart.
theorem eq_of_shape {opcode opcode' : UInt8} {operation operation' : Operation}
    (hget : standard.get? opcode = some operation) (hget' : standard.get? opcode' = some operation')
    (hname : operation.mnemonic.name = operation'.mnemonic.name)
    (hshape : operation.mode.shape = operation'.mode.shape) : operation = operation' := by
  simp only [standard, Option.map_eq_some_iff] at hget hget'
  obtain ⟨row, hrow, rfl⟩ := hget
  obtain ⟨row', hrow', rfl⟩ := hget'
  have hkey : rowKey row = rowKey row' := by
    rw [rowKey, rowKey]
    exact congrArg₂ (fun name shape => 0x20 * Mnemonic.key name + shape.ctorIdx) hname hshape
  have hfirst := getElem?_rowKey hrow
  have hsecond := getElem?_rowKey hrow'
  have hlt : opcode.toNat < (matrix.toList.map rowKey).length :=
    List.getElem?_eq_some_iff.mp hfirst |>.1
  have hopcode : opcode.toNat = opcode'.toNat :=
    (List.getElem?_inj hlt nodup_rowKey).mp (hfirst.trans (hkey ▸ hsecond.symm))
  rw [hopcode, hrow'] at hrow
  rw [UInt8.toNat_inj.mp hopcode, Option.some.inj hrow]

end OpcodeTable

namespace Instruction

-- What is written of an instruction, apart from where and for which registers it was read.
def words (instruction : Instruction) : String :=
  let mnemonic := instruction.operation.mnemonic.name
  if instruction.operand.text.isEmpty then mnemonic else mnemonic ++ " " ++ instruction.operand.text

theorem text_executing (instruction : Instruction) (r : Registers) :
    (Remark.executing instruction r).text =
      instruction.address.text ++ " " ++ Text.hexByte instruction.operation.opcode ++ "  " ++
        Text.padRight 16 instruction.words ++ " " ++ r.text := rfl

-- Some memory holds it for some registers.
def IsRead (table : OpcodeTable) (instruction : Instruction) : Prop :=
  ∃ (μ : Type) (_ : Memory μ) (machine : Machine μ),
    (Execution.fetch table machine).1 = .ok instruction

-- Only the name and the operand are written, with a blank between them.
theorem words_eq_iff {first second : Instruction} :
    first.words = second.words ↔
      first.operation.mnemonic.name = second.operation.mnemonic.name ∧
        first.operand.text = second.operand.text := by
  have hwords (instruction : Instruction) :
      instruction.words.toList = instruction.operation.mnemonic.name.toList ++
        if instruction.operand.text = "" then [] else ' ' :: instruction.operand.text.toList := by
    rw [words]
    by_cases hempty : instruction.operand.text = ""
    · simp [hempty]
    · simp [hempty]
  constructor
  · intro hsame
    have hlist := congrArg String.toList hsame
    rw [hwords, hwords] at hlist
    obtain ⟨hname, hrest⟩ := List.append_inj hlist
      ((Mnemonic.length_name _).trans (Mnemonic.length_name _).symm)
    refine ⟨String.toList_inj.mp hname, ?_⟩
    split at hrest <;> split at hrest
    case isTrue.isTrue hfirst hsecond => exact hfirst.trans hsecond.symm
    case isTrue.isFalse => cases hrest
    case isFalse.isTrue => cases hrest
    case isFalse.isFalse => exact String.toList_inj.mp (List.cons.inj hrest).2
  · rintro ⟨hname, htext⟩
    simp only [words, hname, htext]

theorem IsRead.decodes {instruction : Instruction} (hread : IsRead .standard instruction) :
    ∃ (opcode : UInt8) (p : Status),
      OpcodeTable.standard.get? opcode = some instruction.operation ∧
        instruction.operation.mode.Decodes p instruction.operand := by
  obtain ⟨μ, _, machine, hfetch⟩ := hread
  have hfollows := (Execution.Takes.fetch OpcodeTable.exists_of_standard).follows machine
    (Execution.lockstep_log.fetch .standard)
  rw [hfetch] at hfollows
  cases hfollows with
  | complete hcourse _ =>
      obtain ⟨opcode, hget, hdecodes, -⟩ := hcourse
      exact ⟨opcode, machine.registers.p, hget, hdecodes⟩

theorem eq_of_words {first second : Instruction} (hfirst : IsRead .standard first)
    (hsecond : IsRead .standard second) (hwords : first.words = second.words) :
    first.operation = second.operation ∧ first.operand = second.operand := by
  obtain ⟨hname, htext⟩ := words_eq_iff.mp hwords
  obtain ⟨opcode, p, hget, hdecodes⟩ := hfirst.decodes
  obtain ⟨opcode', p', hget', hdecodes'⟩ := hsecond.decodes
  have hshape : first.operation.mode.shape = second.operation.mode.shape := by
    rw [Mode.shape_of_decodes hdecodes, Mode.shape_of_decodes hdecodes',
      Operand.shape_of_text htext]
  have hoperation := OpcodeTable.eq_of_shape hget hget' hname hshape
  refine ⟨hoperation, ?_⟩
  -- the one operation cannot read a short branch and a long one
  rw [hoperation] at hdecodes
  rcases (Operand.text_eq_iff _ _).mp htext with
    hsame | ⟨short, long, -, hshort, hlong⟩ | ⟨short, long, -, hshort, hlong⟩
  · exact hsame
  · rw [hshort] at hdecodes
    rw [hlong] at hdecodes'
    cases hdecodes.symm.trans hdecodes'
  · rw [hlong] at hdecodes
    rw [hshort] at hdecodes'
    cases hdecodes.symm.trans hdecodes'

-- Operands of different kinds or values are written differently, except for a short and a long
-- branch by one distance. Their mnemonics differ, and so no two instructions are written alike.
theorem text_unambiguous :
    (∀ operand other : Operand, operand.text = other.text ↔
      operand = other ∨ operand.SameDistance other ∨ other.SameDistance operand) ∧
    ∀ first second : Instruction, IsRead .standard first → IsRead .standard second →
      (first.words = second.words ↔
        first.operation = second.operation ∧ first.operand = second.operand) ∧
      (first.operation.mnemonic.name = second.operation.mnemonic.name ∧
          first.operand.text = second.operand.text ↔
        first.operation = second.operation ∧ first.operand = second.operand) := by
  refine ⟨Operand.text_eq_iff, fun first second hfirst hsecond => ?_⟩
  have hwords : first.words = second.words ↔
      first.operation = second.operation ∧ first.operand = second.operand := by
    refine ⟨eq_of_words hfirst hsecond, fun ⟨hoperation, hoperand⟩ => ?_⟩
    rw [words_eq_iff, hoperation, hoperand]
    exact ⟨rfl, rfl⟩
  exact ⟨hwords, words_eq_iff.symm.trans hwords⟩

-- Only the mnemonics tell these apart.
theorem text_unambiguous_branches :
    let short : Instruction := ⟨⟨0x80, .bra, .relative, 2⟩, ⟨0, 0⟩, .relative (-3)⟩
    let long : Instruction := ⟨⟨0x82, .brl, .relativeLong, 4⟩, ⟨0, 0⟩, .relativeLong (-3)⟩
    IsRead .standard short ∧ IsRead .standard long ∧ short.operand.text = long.operand.text ∧
      short.words ≠ long.words := by
  intro short long
  have hshort : IsRead .standard short :=
    ⟨FlatMemory, inferInstance,
      ⟨.powerOn, {}, ⟨fun address => if address.offset = 0 then 0x80 else 0xFD⟩, 0⟩,
      by decide +kernel⟩
  have hlong : IsRead .standard long :=
    ⟨FlatMemory, inferInstance,
      ⟨.powerOn, {}, ⟨fun address =>
        if address.offset = 0 then 0x82 else if address.offset = 1 then 0xFD else 0xFF⟩, 0⟩,
      by decide +kernel⟩
  refine ⟨hshort, hlong, (text_unambiguous.1 _ _).mpr (.inr (.inl ⟨-3, -3, rfl, rfl, rfl⟩)), ?_⟩
  intro hsame
  exact absurd ((text_unambiguous.2 short long hshort hlong).1.mp hsame).1 (by decide)

end Instruction

end Console816
