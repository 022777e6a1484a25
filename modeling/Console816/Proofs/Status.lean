import Console816.Status

namespace Console816

namespace Flag

theorem mask_ne_zero (flag : Flag) : flag.mask ≠ 0 := by
  cases flag <;> decide

-- The masks have one bit each, and no two share it.
theorem mask_and_mask {flag other : Flag} (hne : other ≠ flag) : flag.mask &&& other.mask = 0 := by
  cases flag <;> cases other <;> first | exact absurd rfl hne | rfl

theorem not_mask_and_mask {flag other : Flag} (hne : other ≠ flag) :
    ~~~flag.mask &&& other.mask = other.mask := by
  cases flag <;> cases other <;> first | exact absurd rfl hne | rfl

end Flag

namespace Status

private theorem or_and_distrib (a b c : UInt8) : (a ||| b) &&& c = (a &&& c) ||| (b &&& c) :=
  UInt8.toBitVec_inj.mp BitVec.and_or_distrib_right

-- A flag that is put reads back, and every other flag stays.
@[simp] theorem has_put_self (p : Status) (flag : Flag) (value : Bool) :
    (p.put flag value).has flag = value := by
  cases value with
  | false => simp [put, putMask, has, UInt8.and_assoc]
  | true =>
      have hne : p.byte &&& flag.mask ||| flag.mask ≠ 0 := fun h =>
        flag.mask_ne_zero (UInt8.or_eq_zero_iff.mp h).2
      simp [put, putMask, has, or_and_distrib, hne]

theorem has_put_of_ne (p : Status) {flag other : Flag} (value : Bool) (hne : other ≠ flag) :
    (p.put flag value).has other = p.has other := by
  cases value with
  | false => simp [put, putMask, has, UInt8.and_assoc, Flag.not_mask_and_mask hne]
  | true => simp [put, putMask, has, or_and_distrib, Flag.mask_and_mask hne]

-- The flags are all there is to a status.
theorem byte_eq_of_flags (p : Status) :
    p.byte = (Flag.all.map fun flag => if p.has flag then flag.mask else 0).foldl (· ||| ·) 0 := by
  have hall : ∀ byte : Fin 0x100, (.ofNat byte : UInt8) =
      (Flag.all.map fun flag =>
        if (⟨.ofNat byte⟩ : Status).has flag then flag.mask else 0).foldl (· ||| ·) 0 := by
    decide +kernel
  simpa using hall ⟨p.byte.toNat, p.byte.toNat_lt⟩

theorem eq_of_flags {p q : Status} (hflags : ∀ flag, p.has flag = q.has flag) : p = q := by
  have hbytes : p.byte = q.byte := by
    rw [p.byte_eq_of_flags, q.byte_eq_of_flags]
    simp only [hflags]
  exact congrArg mk hbytes

-- N and Z are all that a description writes.
theorem has_describe_of_ne (p : Status) (width : Width) (value : UInt16) {flag : Flag}
    (hz : flag ≠ .zero) (hn : flag ≠ .negative) :
    (p.describe width value).has flag = p.has flag := by
  rw [describe, has_put_of_ne _ _ hn, has_put_of_ne _ _ hz]

theorem put_eq_self {p : Status} {flag : Flag} {value : Bool} (h : p.has flag = value) :
    p.put flag value = p := by
  refine eq_of_flags fun other => ?_
  by_cases hsame : other = flag
  · rw [hsame, has_put_self, h]
  · exact p.has_put_of_ne value hsame

-- Setting more flags clears none.
theorem has_putMask {p : Status} {flag : Flag} (h : p.has flag = true) (mask : UInt8) :
    (p.putMask mask true).has flag = true := by
  simp only [has, putMask, if_true, or_and_distrib, bne_iff_ne, ne_eq, UInt8.or_eq_zero_iff] at h ⊢
  exact fun hzero => h hzero.1

-- Both widths are the same under either status.
def SameWidths (p q : Status) : Prop :=
  p.has .narrowAccumulator = q.has .narrowAccumulator ∧ p.has .narrowIndex = q.has .narrowIndex

theorem SameWidths.trans {p q other : Status} (hpq : p.SameWidths q) (hq : q.SameWidths other) :
    p.SameWidths other :=
  ⟨hpq.1.trans hq.1, hpq.2.trans hq.2⟩

theorem sameWidths_put (p : Status) {flag : Flag} (value : Bool)
    (hm : flag ≠ .narrowAccumulator) (hx : flag ≠ .narrowIndex) :
    (p.put flag value).SameWidths p :=
  ⟨p.has_put_of_ne value hm.symm, p.has_put_of_ne value hx.symm⟩

theorem sameWidths_describe (p : Status) (width : Width) (value : UInt16) :
    (p.describe width value).SameWidths p :=
  ⟨p.has_describe_of_ne width value (by decide) (by decide),
    p.has_describe_of_ne width value (by decide) (by decide)⟩

-- Whatever the break bit of a pushed status is, pulling it in emulation mode sets both widths
-- again.
theorem put_widths_putMask_break {p : Status} (hm : p.has .narrowAccumulator = true)
    (hx : p.has .narrowIndex = true) (value : Bool) :
    ((p.putMask breakMask value).put .narrowAccumulator true).put .narrowIndex true = p := by
  have hall : ∀ byte : Fin 0x100, (⟨.ofNat byte⟩ : Status).has .narrowAccumulator = true →
      (⟨.ofNat byte⟩ : Status).has .narrowIndex = true → ∀ value,
      (((⟨.ofNat byte⟩ : Status).putMask breakMask value).put .narrowAccumulator true).put
        .narrowIndex true = ⟨.ofNat byte⟩ := by
    decide +kernel
  have hp : (⟨.ofNat p.byte.toNat⟩ : Status) = p := congrArg mk UInt8.ofNat_toNat
  have hone := hall ⟨p.byte.toNat, p.byte.toNat_lt⟩
  simp only [hp] at hone
  exact hone hm hx value

end Status

end Console816
