import Console816.Instruction.Action

namespace Console816

inductive Mnemonic where
  | adc | sbc | and | ora | eor | cmp | cpx | cpy | bit | tsb | trb
  | asl | lsr | rol | ror | inc | dec | inx | iny | dex | dey
  | lda | ldx | ldy | sta | stx | sty | stz
  | tax | tay | txa | tya | txy | tyx | tsx | txs | tcs | tsc | tcd | tdc | xba | mvn | mvp
  | pha | phx | phy | phb | phd | phk | php | pla | plx | ply | plb | pld | plp | pea | pei | per
  | bcc | bcs | beq | bne | bmi | bpl | bvc | bvs | bra | brl
  | jmp | jml | jsr | jsl | rts | rtl | rti | brk | cop
  | clc | cld | cli | clv | sec | sed | sei | rep | sep | xce | wai | stp | nop | wdm
  deriving DecidableEq, Repr

namespace Mnemonic

def name : Mnemonic → String
  | adc => "ADC" | sbc => "SBC" | and => "AND" | ora => "ORA" | eor => "EOR" | cmp => "CMP"
  | cpx => "CPX" | cpy => "CPY" | bit => "BIT" | tsb => "TSB" | trb => "TRB" | asl => "ASL"
  | lsr => "LSR" | rol => "ROL" | ror => "ROR" | inc => "INC" | dec => "DEC" | inx => "INX"
  | iny => "INY" | dex => "DEX" | dey => "DEY" | lda => "LDA" | ldx => "LDX" | ldy => "LDY"
  | sta => "STA" | stx => "STX" | sty => "STY" | stz => "STZ" | tax => "TAX" | tay => "TAY"
  | txa => "TXA" | tya => "TYA" | txy => "TXY" | tyx => "TYX" | tsx => "TSX" | txs => "TXS"
  | tcs => "TCS" | tsc => "TSC" | tcd => "TCD" | tdc => "TDC" | xba => "XBA" | mvn => "MVN"
  | mvp => "MVP" | pha => "PHA" | phx => "PHX" | phy => "PHY" | phb => "PHB" | phd => "PHD"
  | phk => "PHK" | php => "PHP" | pla => "PLA" | plx => "PLX" | ply => "PLY" | plb => "PLB"
  | pld => "PLD" | plp => "PLP" | pea => "PEA" | pei => "PEI" | per => "PER" | bcc => "BCC"
  | bcs => "BCS" | beq => "BEQ" | bne => "BNE" | bmi => "BMI" | bpl => "BPL" | bvc => "BVC"
  | bvs => "BVS" | bra => "BRA" | brl => "BRL" | jmp => "JMP" | jml => "JML" | jsr => "JSR"
  | jsl => "JSL" | rts => "RTS" | rtl => "RTL" | rti => "RTI" | brk => "BRK" | cop => "COP"
  | clc => "CLC" | cld => "CLD" | cli => "CLI" | clv => "CLV" | sec => "SEC" | sed => "SED"
  | sei => "SEI" | rep => "REP" | sep => "SEP" | xce => "XCE" | wai => "WAI" | stp => "STP"
  | nop => "NOP" | wdm => "WDM"

def action : Mnemonic → Action
  -- arithmetic and logic
  | adc => .add
  | sbc => .subtract
  | and => .conjoin
  | ora => .disjoin
  | eor => .exclude
  | cmp => .compare .a
  | cpx => .compare .x
  | cpy => .compare .y
  | bit => .testBits
  | tsb => .putBits true
  | trb => .putBits false
  | asl => .shift .left
  | lsr => .shift .right
  | rol => .shift .rotateLeft
  | ror => .shift .rotateRight
  | inc => .step 1
  | dec => .step 0xFFFF
  | inx => .stepIndex .x 1
  | iny => .stepIndex .y 1
  | dex => .stepIndex .x 0xFFFF
  | dey => .stepIndex .y 0xFFFF
  -- loads, stores and copies
  | lda => .load .a
  | ldx => .load .x
  | ldy => .load .y
  | sta => .store .a
  | stx => .store .x
  | sty => .store .y
  | stz => .storeZero
  | tax => .copy .x .a
  | tay => .copy .y .a
  | txa => .copy .a .x
  | tya => .copy .a .y
  | txy => .copy .y .x
  | tyx => .copy .x .y
  | tsx => .copy .x .s
  | txs => .copyToStack .x
  | tcs => .copyToStack .a
  | tsc => .copyWord .a .s
  | tcd => .copyWord .d .a
  | tdc => .copyWord .a .d
  | xba => .swapBytes
  | mvn => .blockMove 1
  | mvp => .blockMove 0xFFFF
  -- stack
  | pha => .push (.data .a)
  | phx => .push (.data .x)
  | phy => .push (.data .y)
  | phb => .push .dataBank
  | phd => .push .direct
  | phk => .push .programBank
  | php => .push .status
  | pla => .pull (.data .a)
  | plx => .pull (.data .x)
  | ply => .pull (.data .y)
  | plb => .pull .dataBank
  | pld => .pull .direct
  | plp => .pull .status
  | pea | pei | per => .pushAddress
  -- control flow
  | bcc => .branch (.flag .carry false) 1
  | bcs => .branch (.flag .carry true) 1
  | beq => .branch (.flag .zero true) 1
  | bne => .branch (.flag .zero false) 1
  | bmi => .branch (.flag .negative true) 1
  | bpl => .branch (.flag .negative false) 1
  | bvc => .branch (.flag .overflow false) 1
  | bvs => .branch (.flag .overflow true) 1
  | bra => .branch .always 1
  | brl => .branch .always 0
  | jmp => .jump
  | jml => .jumpLong
  | jsr => .call
  | jsl => .callLong
  | rts => .returnNear
  | rtl => .returnLong
  | rti => .returnInterrupt
  | brk => .raise .brk
  | cop => .raise .cop
  -- status and processor control
  | clc => .putFlag .carry false
  | cld => .putFlag .decimal false
  | cli => .putFlag .irqDisable false
  | clv => .putFlag .overflow false
  | sec => .putFlag .carry true
  | sed => .putFlag .decimal true
  | sei => .putFlag .irqDisable true
  | rep => .putStatus false
  | sep => .putStatus true
  | xce => .exchangeEmulation
  | wai => .wait
  | stp => .stop
  | nop | wdm => .nothing

end Mnemonic

end Console816
