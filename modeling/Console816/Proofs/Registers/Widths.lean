import Console816.Proofs.Registers.Changes
import Console816.Proofs.Status
import Console816.Proofs.Word

namespace Console816

namespace Arithmetic

theorem sameWidths_conclude (width : Width) (a b : UInt16) (sum corrected : Int) (p : Status) :
    (conclude width a b sum corrected p).2.SameWidths p := by
  refine (Status.sameWidths_describe _ width _).trans ?_
  refine (Status.sameWidths_put _ _ (by decide) (by decide)).trans ?_
  exact Status.sameWidths_put _ _ (by decide) (by decide)

theorem sameWidths_addCorrected (correct : Int → Int → Int) (width : Width) (a b : UInt16)
    (p : Status) : (addCorrected correct width a b p).2.SameWidths p := by
  rw [addCorrected]
  split <;> exact sameWidths_conclude ..

theorem sameWidths_compare (width : Width) (register value : UInt16) (p : Status) :
    (compare width register value p).SameWidths p :=
  (Status.sameWidths_describe _ width _).trans
    (Status.sameWidths_put _ _ (by decide) (by decide))

end Arithmetic

namespace Registers

-- BIT is about N, V and Z, and so changes a status between the same widths.
theorem sameWidths_testBits (r : Registers) (width : Width) (value : UInt16) (isConstant : Bool) :
    (r.testBits width value isConstant).p.SameWidths r.p := by
  have hzero : (r.p.put .zero (value &&& width.truncate r.a == 0)).SameWidths r.p :=
    r.p.sameWidths_put _ (by decide) (by decide)
  cases isConstant with
  | true => exact hzero
  | false =>
      refine (Status.sameWidths_put _ _ (by decide) (by decide)).trans ?_
      exact (Status.sameWidths_put _ _ (by decide) (by decide)).trans hzero

theorem testBits_eq (r : Registers) (width : Width) (value : UInt16) (isConstant : Bool) :
    r.testBits width value isConstant = { r with p := (r.testBits width value isConstant).p } := by
  cases isConstant <;> rfl

-- What the widths promise. Emulation mode has 8-bit registers and its stack in page 1, and 8-bit
-- index registers have no high byte.
structure WidthsAgree (r : Registers) : Prop where
  narrow : r.emulation = true →
    r.p.has .narrowAccumulator = true ∧ r.p.has .narrowIndex = true
  page : r.emulation = true → Word.high r.s = 0x01
  indexX : r.p.has .narrowIndex = true → r.x < 0x100
  indexY : r.p.has .narrowIndex = true → r.y < 0x100

theorem widthsAgree_powerOn : powerOn.WidthsAgree where
  narrow _ := by decide
  page _ := by decide
  indexX _ := by decide
  indexY _ := by decide

namespace WidthsAgree

variable {r : Registers}

-- The promise looks at E, the two width flags, S, X and Y.
theorem of_same {r' : Registers} (h : r.WidthsAgree) (he : r'.emulation = r.emulation)
    (hp : r'.p.SameWidths r.p) (hs : r'.s = r.s)
    (hx : r'.p.has .narrowIndex = true → r'.x < 0x100)
    (hy : r'.p.has .narrowIndex = true → r'.y < 0x100) : r'.WidthsAgree where
  narrow hem := by
    rw [hp.1, hp.2]
    exact h.narrow (he ▸ hem)
  page hem := by
    rw [hs]
    exact h.page (he ▸ hem)
  indexX := hx
  indexY := hy

theorem of_status (h : r.WidthsAgree) {p : Status} (hp : p.SameWidths r.p) :
    { r with p }.WidthsAgree :=
  h.of_same rfl hp rfl (fun hn => h.indexX (hp.2 ▸ hn)) (fun hn => h.indexY (hp.2 ▸ hn))

theorem of_stack (h : r.WidthsAgree) {s : UInt16}
    (hs : r.emulation = true → Word.high s = 0x01) : { r with s }.WidthsAgree :=
  { h with page := hs }

theorem stackDown (h : r.WidthsAgree) : r.stackDown.WidthsAgree :=
  h.of_stack fun hem => by rw [if_pos hem]; exact Word.high_pageOne _

theorem stackUp (h : r.WidthsAgree) : r.stackUp.WidthsAgree :=
  h.of_stack fun hem => by rw [if_pos hem]; exact Word.high_pageOne _

theorem assignStack (h : r.WidthsAgree) (value : UInt16) : (r.assignStack value).WidthsAgree :=
  h.of_stack fun hem => by rw [if_pos hem]; exact Word.high_pageOne _

theorem reset (r : Registers) : r.reset.WidthsAgree where
  narrow _ := by simp only [Registers.reset]; decide
  page _ := by simp only [Registers.reset]; decide
  indexX _ := Word.lowByte_lt r.x
  indexY _ := Word.lowByte_lt r.y

-- Emulation mode forces the widths that it promises, and narrow index registers are cut. So any
-- status may be set, from whatever registers, as long as the stack is where it should be.
theorem setStatus (r : Registers) (p : Status)
    (hpage : r.emulation = true → Word.high r.s = 0x01) : (r.setStatus p).WidthsAgree := by
  simp only [Registers.setStatus]
  generalize hp : (if r.emulation = true then
    (p.put .narrowAccumulator true).put .narrowIndex true else p) = p'
  have hnarrow : r.emulation = true →
      p'.has .narrowAccumulator = true ∧ p'.has .narrowIndex = true := by
    intro hem
    rw [← hp, if_pos hem, Status.has_put_of_ne _ _ (by decide)]
    exact ⟨Status.has_put_self .., Status.has_put_self ..⟩
  by_cases hindex : p'.has .narrowIndex = true
  · rw [if_pos hindex]
    exact ⟨hnarrow, hpage, fun _ => Word.lowByte_lt r.x, fun _ => Word.lowByte_lt r.y⟩
  · rw [if_neg hindex]
    exact ⟨hnarrow, hpage, fun hn => absurd hn hindex, fun hn => absurd hn hindex⟩

theorem setEmulation (h : r.WidthsAgree) (emulation : Bool) :
    (r.setEmulation emulation).WidthsAgree := by
  cases emulation with
  | true => exact setStatus _ _ fun _ => Word.high_pageOne _
  | false => exact { h with narrow := nofun, page := nofun }

theorem exchangeEmulation (h : r.WidthsAgree) : r.exchangeEmulation.WidthsAgree :=
  (h.of_status (r.p.sameWidths_put _ (by decide) (by decide))).setEmulation _

theorem testBits (h : r.WidthsAgree) (width : Width) (value : UInt16) (isConstant : Bool) :
    (r.testBits width value isConstant).WidthsAgree := by
  rw [testBits_eq]
  exact h.of_status (r.sameWidths_testBits width value isConstant)


private theorem indexWidth_eq_byte {p : Status} (hn : p.has .narrowIndex = true) :
    p.indexWidth = .byte := by
  simp [Status.indexWidth, Width.ofNarrow, hn]

theorem assign (h : r.WidthsAgree) (target : DataRegister) (value : UInt16) :
    (r.assign target value).WidthsAgree := by
  have hp := r.p.sameWidths_describe (r.dataWidth target) value
  have hbyte {p : Status} (hsame : p.SameWidths r.p) (hn : p.has .narrowIndex = true) :
      r.indexWidth = .byte := indexWidth_eq_byte (hsame.2 ▸ hn)
  cases target with
  | a => exact h.of_same rfl hp rfl (fun hn => h.indexX (hp.2 ▸ hn)) fun hn => h.indexY (hp.2 ▸ hn)
  | x =>
      exact h.of_same rfl hp rfl (fun hn => Width.truncate_lt (hbyte hp hn) value)
        fun hn => h.indexY (hp.2 ▸ hn)
  | y =>
      exact h.of_same rfl hp rfl (fun hn => h.indexX (hp.2 ▸ hn))
        fun hn => Width.truncate_lt (hbyte hp hn) value

theorem stepData (h : r.WidthsAgree) (target : DataRegister) (delta : UInt16) :
    (r.stepData target delta).WidthsAgree := by
  have hp := r.p.sameWidths_describe (r.dataWidth target) (r.data target + delta)
  have hx (hn : r.p.has .narrowIndex = true) := Width.merge_lt (indexWidth_eq_byte hn) (r.x + delta)
    (h.indexX hn)
  have hy (hn : r.p.has .narrowIndex = true) := Width.merge_lt (indexWidth_eq_byte hn) (r.y + delta)
    (h.indexY hn)
  cases target with
  | a => exact h.of_same rfl hp rfl (fun hn => h.indexX (hp.2 ▸ hn)) fun hn => h.indexY (hp.2 ▸ hn)
  | x => exact h.of_same rfl hp rfl (fun hn => hx (hp.2 ▸ hn)) fun hn => h.indexY (hp.2 ▸ hn)
  | y => exact h.of_same rfl hp rfl (fun hn => h.indexX (hp.2 ▸ hn)) fun hn => hy (hp.2 ▸ hn)

theorem assignWord (h : r.WidthsAgree) {target : WordRegister} (value : UInt16)
    (htarget : target = .a ∨ target = .d) : (r.assignWord target value).WidthsAgree := by
  have hstatus := h.of_status (r.p.sameWidths_describe .word value)
  obtain rfl | rfl := htarget
  · exact { hstatus with }
  · exact { hstatus with }

theorem assignPulled (h : r.WidthsAgree) (value : UInt16) (target : Pulled) :
    (r.assignPulled value target).WidthsAgree := by
  cases target with
  | data register => exact h.assign register value
  | direct => exact h.assignWord value (.inr rfl)
  | dataBank => exact { h.of_status (r.p.sameWidths_describe .byte value) with }
  | status => exact setStatus r _ h.page

-- Nothing of an index register is beyond its width.
private theorem truncate_index {index : UInt16}
    (hindex : r.p.has .narrowIndex = true → index < 0x100) :
    r.indexWidth.truncate index = index := by
  by_cases hnarrow : r.p.has .narrowIndex = true
  · rw [show r.indexWidth = .byte from indexWidth_eq_byte hnarrow]
    exact Word.lowByte_eq_self (hindex hnarrow)
  · have hword : r.indexWidth = .word := by
      simp [Registers.indexWidth, Status.indexWidth, Width.ofNarrow, hnarrow]
    rw [hword, Width.truncate_word]

theorem truncate_x (h : r.WidthsAgree) : r.indexWidth.truncate r.x = r.x :=
  truncate_index h.indexX

theorem truncate_y (h : r.WidthsAgree) : r.indexWidth.truncate r.y = r.y :=
  truncate_index h.indexY

theorem moveOn (h : r.WidthsAgree) (delta : UInt16) : (r.moveOn delta).WidthsAgree :=
  h.of_same rfl ⟨rfl, rfl⟩ rfl (fun hn => Width.truncate_lt (indexWidth_eq_byte hn) _)
    fun hn => Width.truncate_lt (indexWidth_eq_byte hn) _

-- Whatever the processor does to its registers keeps the promise.
theorem change {change : Registers → Registers} (hchange : Change change) (h : r.WidthsAgree) :
    (change r).WidthsAgree := by
  cases hchange with
  | counter | bank | longCounter | dataBank | accumulator => exact { h with }
  | stackDown => exact h.stackDown
  | stackUp => exact h.stackUp
  | reset => exact reset r
  | handler =>
      have hirq : (r.p.put .irqDisable true).SameWidths r.p :=
        r.p.sameWidths_put _ (by decide) (by decide)
      have hdecimal : ((r.p.put .irqDisable true).put .decimal false).SameWidths r.p :=
        (Status.sameWidths_put _ _ (by decide) (by decide)).trans hirq
      exact { h.of_status hdecimal with }
  | addition width value =>
      exact { h.of_status (Arithmetic.sameWidths_addCorrected _ width r.a value r.p) with }
  | subtraction width value =>
      exact { h.of_status (Arithmetic.sameWidths_addCorrected _ width r.a (~~~value) r.p) with }
  | comparison register width value =>
      exact h.of_status (Arithmetic.sameWidths_compare width _ value r.p)
  | testBits width value isConstant => exact h.testBits width value isConstant
  | flag flag value hm hx => exact h.of_status (r.p.sameWidths_put value hm hx)
  | shift kind width old =>
      exact h.of_status ((Status.sameWidths_describe _ width _).trans
        (r.p.sameWidths_put _ (by decide) (by decide)))
  | description width value => exact h.of_status (r.p.sameWidths_describe width value)
  | assign target value => exact h.assign target (value r)
  | stepData target delta => exact h.stepData target delta
  | assignWord target value htarget => exact h.assignWord (value r) htarget
  | assignStack value => exact h.assignStack (value r)
  | assignPulled value target => exact h.assignPulled value target
  | swapBytes => exact { h.of_status (r.p.sameWidths_describe .byte _) with }
  | moveOn delta => exact h.moveOn delta
  | setStatus p => exact setStatus r p h.page
  | putStatus mask value => exact setStatus r _ h.page
  | exchangeEmulation => exact h.exchangeEmulation

end WidthsAgree

end Registers

end Console816
