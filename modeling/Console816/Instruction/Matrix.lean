import Console816.Instruction.Operation

namespace Console816

namespace OpcodeTable

-- The instruction set, sixteen opcodes under each mark, in the order of their codes. The count of
-- cycles is the least: 8-bit registers and a direct page on a page boundary.
def matrix : Array (Mnemonic × Mode × UInt8) :=
  #[
    -- 00
    (.brk, .byteConstant, 7), (.ora, .directXIndirect, 6), (.cop, .byteConstant, 7),
    (.ora, .stackRelative, 4), (.tsb, .direct, 5), (.ora, .direct, 3), (.asl, .direct, 5),
    (.ora, .directIndirectLong, 6), (.php, .implied, 3), (.ora, .accumulatorConstant, 2),
    (.asl, .accumulator, 2), (.phd, .implied, 4), (.tsb, .absolute, 6), (.ora, .absolute, 4),
    (.asl, .absolute, 6), (.ora, .long, 5),
    -- 10
    (.bpl, .relative, 2), (.ora, .directIndirectY, 5), (.ora, .directIndirect, 5),
    (.ora, .stackRelativeIndirectY, 7), (.trb, .direct, 5), (.ora, .directX, 4),
    (.asl, .directX, 6), (.ora, .directIndirectLongY, 6), (.clc, .implied, 2),
    (.ora, .absoluteY, 4), (.inc, .accumulator, 2), (.tcs, .implied, 2), (.trb, .absolute, 6),
    (.ora, .absoluteX, 4), (.asl, .absoluteX, 7), (.ora, .longX, 5),
    -- 20
    (.jsr, .absolute, 6), (.and, .directXIndirect, 6), (.jsl, .long, 8), (.and, .stackRelative, 4),
    (.bit, .direct, 3), (.and, .direct, 3), (.rol, .direct, 5), (.and, .directIndirectLong, 6),
    (.plp, .implied, 4), (.and, .accumulatorConstant, 2), (.rol, .accumulator, 2),
    (.pld, .implied, 5), (.bit, .absolute, 4), (.and, .absolute, 4), (.rol, .absolute, 6),
    (.and, .long, 5),
    -- 30
    (.bmi, .relative, 2), (.and, .directIndirectY, 5), (.and, .directIndirect, 5),
    (.and, .stackRelativeIndirectY, 7), (.bit, .directX, 4), (.and, .directX, 4),
    (.rol, .directX, 6), (.and, .directIndirectLongY, 6), (.sec, .implied, 2),
    (.and, .absoluteY, 4), (.dec, .accumulator, 2), (.tsc, .implied, 2), (.bit, .absoluteX, 4),
    (.and, .absoluteX, 4), (.rol, .absoluteX, 7), (.and, .longX, 5),
    -- 40
    (.rti, .implied, 6), (.eor, .directXIndirect, 6), (.wdm, .byteConstant, 2),
    (.eor, .stackRelative, 4), (.mvp, .blockMove, 7), (.eor, .direct, 3), (.lsr, .direct, 5),
    (.eor, .directIndirectLong, 6), (.pha, .implied, 3), (.eor, .accumulatorConstant, 2),
    (.lsr, .accumulator, 2), (.phk, .implied, 3), (.jmp, .absolute, 3), (.eor, .absolute, 4),
    (.lsr, .absolute, 6), (.eor, .long, 5),
    -- 50
    (.bvc, .relative, 2), (.eor, .directIndirectY, 5), (.eor, .directIndirect, 5),
    (.eor, .stackRelativeIndirectY, 7), (.mvn, .blockMove, 7), (.eor, .directX, 4),
    (.lsr, .directX, 6), (.eor, .directIndirectLongY, 6), (.cli, .implied, 2),
    (.eor, .absoluteY, 4), (.phy, .implied, 3), (.tcd, .implied, 2), (.jml, .long, 4),
    (.eor, .absoluteX, 4), (.lsr, .absoluteX, 7), (.eor, .longX, 5),
    -- 60
    (.rts, .implied, 6), (.adc, .directXIndirect, 6), (.per, .relativeLong, 6),
    (.adc, .stackRelative, 4), (.stz, .direct, 3), (.adc, .direct, 3), (.ror, .direct, 5),
    (.adc, .directIndirectLong, 6), (.pla, .implied, 4), (.adc, .accumulatorConstant, 2),
    (.ror, .accumulator, 2), (.rtl, .implied, 6), (.jmp, .absoluteIndirect, 5),
    (.adc, .absolute, 4), (.ror, .absolute, 6), (.adc, .long, 5),
    -- 70
    (.bvs, .relative, 2), (.adc, .directIndirectY, 5), (.adc, .directIndirect, 5),
    (.adc, .stackRelativeIndirectY, 7), (.stz, .directX, 4), (.adc, .directX, 4),
    (.ror, .directX, 6), (.adc, .directIndirectLongY, 6), (.sei, .implied, 2),
    (.adc, .absoluteY, 4), (.ply, .implied, 4), (.tdc, .implied, 2), (.jmp, .absoluteXIndirect, 6),
    (.adc, .absoluteX, 4), (.ror, .absoluteX, 7), (.adc, .longX, 5),
    -- 80
    (.bra, .relative, 2), (.sta, .directXIndirect, 6), (.brl, .relativeLong, 4),
    (.sta, .stackRelative, 4), (.sty, .direct, 3), (.sta, .direct, 3), (.stx, .direct, 3),
    (.sta, .directIndirectLong, 6), (.dey, .implied, 2), (.bit, .accumulatorConstant, 2),
    (.txa, .implied, 2), (.phb, .implied, 3), (.sty, .absolute, 4), (.sta, .absolute, 4),
    (.stx, .absolute, 4), (.sta, .long, 5),
    -- 90
    (.bcc, .relative, 2), (.sta, .directIndirectY, 6), (.sta, .directIndirect, 5),
    (.sta, .stackRelativeIndirectY, 7), (.sty, .directX, 4), (.sta, .directX, 4),
    (.stx, .directY, 4), (.sta, .directIndirectLongY, 6), (.tya, .implied, 2),
    (.sta, .absoluteY, 5), (.txs, .implied, 2), (.txy, .implied, 2), (.stz, .absolute, 4),
    (.sta, .absoluteX, 5), (.stz, .absoluteX, 5), (.sta, .longX, 5),
    -- A0
    (.ldy, .indexConstant, 2), (.lda, .directXIndirect, 6), (.ldx, .indexConstant, 2),
    (.lda, .stackRelative, 4), (.ldy, .direct, 3), (.lda, .direct, 3), (.ldx, .direct, 3),
    (.lda, .directIndirectLong, 6), (.tay, .implied, 2), (.lda, .accumulatorConstant, 2),
    (.tax, .implied, 2), (.plb, .implied, 4), (.ldy, .absolute, 4), (.lda, .absolute, 4),
    (.ldx, .absolute, 4), (.lda, .long, 5),
    -- B0
    (.bcs, .relative, 2), (.lda, .directIndirectY, 5), (.lda, .directIndirect, 5),
    (.lda, .stackRelativeIndirectY, 7), (.ldy, .directX, 4), (.lda, .directX, 4),
    (.ldx, .directY, 4), (.lda, .directIndirectLongY, 6), (.clv, .implied, 2),
    (.lda, .absoluteY, 4), (.tsx, .implied, 2), (.tyx, .implied, 2), (.ldy, .absoluteX, 4),
    (.lda, .absoluteX, 4), (.ldx, .absoluteY, 4), (.lda, .longX, 5),
    -- C0
    (.cpy, .indexConstant, 2), (.cmp, .directXIndirect, 6), (.rep, .byteConstant, 3),
    (.cmp, .stackRelative, 4), (.cpy, .direct, 3), (.cmp, .direct, 3), (.dec, .direct, 5),
    (.cmp, .directIndirectLong, 6), (.iny, .implied, 2), (.cmp, .accumulatorConstant, 2),
    (.dex, .implied, 2), (.wai, .implied, 3), (.cpy, .absolute, 4), (.cmp, .absolute, 4),
    (.dec, .absolute, 6), (.cmp, .long, 5),
    -- D0
    (.bne, .relative, 2), (.cmp, .directIndirectY, 5), (.cmp, .directIndirect, 5),
    (.cmp, .stackRelativeIndirectY, 7), (.pei, .directIndirect, 6), (.cmp, .directX, 4),
    (.dec, .directX, 6), (.cmp, .directIndirectLongY, 6), (.cld, .implied, 2),
    (.cmp, .absoluteY, 4), (.phx, .implied, 3), (.stp, .implied, 3),
    (.jml, .absoluteIndirectLong, 6), (.cmp, .absoluteX, 4), (.dec, .absoluteX, 7),
    (.cmp, .longX, 5),
    -- E0
    (.cpx, .indexConstant, 2), (.sbc, .directXIndirect, 6), (.sep, .byteConstant, 3),
    (.sbc, .stackRelative, 4), (.cpx, .direct, 3), (.sbc, .direct, 3), (.inc, .direct, 5),
    (.sbc, .directIndirectLong, 6), (.inx, .implied, 2), (.sbc, .accumulatorConstant, 2),
    (.nop, .implied, 2), (.xba, .implied, 3), (.cpx, .absolute, 4), (.sbc, .absolute, 4),
    (.inc, .absolute, 6), (.sbc, .long, 5),
    -- F0
    (.beq, .relative, 2), (.sbc, .directIndirectY, 5), (.sbc, .directIndirect, 5),
    (.sbc, .stackRelativeIndirectY, 7), (.pea, .absolute, 5), (.sbc, .directX, 4),
    (.inc, .directX, 6), (.sbc, .directIndirectLongY, 6), (.sed, .implied, 2),
    (.sbc, .absoluteY, 4), (.plx, .implied, 4), (.xce, .implied, 2), (.jsr, .absoluteXIndirect, 8),
    (.sbc, .absoluteX, 4), (.inc, .absoluteX, 7), (.sbc, .longX, 5)
  ]

-- Every opcode stands for an operation.
def standard : OpcodeTable where
  get? opcode :=
    (matrix[opcode.toNat]?).map fun (mnemonic, mode, cycles) => ⟨opcode, mnemonic, mode, cycles⟩

end OpcodeTable

end Console816
