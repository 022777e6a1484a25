import Console816.Proofs.Processor.Courses

namespace Console816.Registers

-- PC and K are what they were.
structure SameCode (r after : Registers) : Prop where
  pc : after.pc = r.pc
  k : after.k = r.k

namespace SameCode

theorem refl (r : Registers) : SameCode r r := ⟨rfl, rfl⟩

theorem trans {r middle after : Registers} (hfirst : SameCode r middle)
    (hsecond : SameCode middle after) : SameCode r after :=
  ⟨hsecond.pc.trans hfirst.pc, hsecond.k.trans hfirst.k⟩

end SameCode

variable (r : Registers)

-- Changes to other registers, of which some depend on what the registers are.

theorem sameCode_setStatus (p : Status) : SameCode r (r.setStatus p) where
  pc := by simp only [setStatus, apply_ite Registers.pc, ite_self]
  k := by simp only [setStatus, apply_ite Registers.k, ite_self]

theorem sameCode_setEmulation (emulation : Bool) : SameCode r (r.setEmulation emulation) := by
  unfold setEmulation
  split
  · have hstack : SameCode r { r with emulation, s := 0x0100 ||| (r.s &&& 0xFF) } := ⟨rfl, rfl⟩
    exact hstack.trans (sameCode_setStatus _ _)
  · exact ⟨rfl, rfl⟩

theorem sameCode_exchangeEmulation : SameCode r r.exchangeEmulation := by
  have hcarry : SameCode r { r with p := r.p.put .carry r.emulation } := ⟨rfl, rfl⟩
  exact hcarry.trans (sameCode_setEmulation _ _)

theorem sameCode_assign (target : DataRegister) (value : UInt16) :
    SameCode r (r.assign target value) := by
  cases target <;> exact ⟨rfl, rfl⟩

theorem sameCode_stepData (target : DataRegister) (delta : UInt16) :
    SameCode r (r.stepData target delta) := by
  cases target <;> exact ⟨rfl, rfl⟩

theorem sameCode_assignWord (target : WordRegister) (value : UInt16) :
    SameCode r (r.assignWord target value) := by
  cases target <;> exact ⟨rfl, rfl⟩

theorem sameCode_assignPulled (value : UInt16) (target : Pulled) :
    SameCode r (r.assignPulled value target) := by
  cases target with
  | data register => exact r.sameCode_assign register value
  | direct | dataBank => exact ⟨rfl, rfl⟩
  | status => exact r.sameCode_setStatus _

theorem sameCode_testBits (width : Width) (value : UInt16) (isConstant : Bool) :
    SameCode r (r.testBits width value isConstant) := by
  cases isConstant <;> exact ⟨rfl, rfl⟩

theorem sameCode_afterPushes (values : List UInt8) : SameCode r (r.afterPushes values) := by
  induction values generalizing r with
  | nil => exact .refl r
  | cons value values ih =>
      have hdown : SameCode r r.stackDown := ⟨rfl, rfl⟩
      exact hdown.trans (ih r.stackDown)

end Console816.Registers
