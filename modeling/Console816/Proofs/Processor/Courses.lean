import Console816.Proofs.Processor.StackPage

namespace Console816

namespace Access

def error? : Access → Option BusError
  | .load _ (.error error) | .store _ _ (.error error) => some error
  | _ => none

-- The same attempt, had it failed.
def fail (error : BusError) : Access → Access
  | load address _ => load address (.error error)
  | store address value _ => store address value (.error error)

theorem error?_fail (error : BusError) (access : Access) :
    (access.fail error).error? = some error := by
  cases access <;> rfl

end Access

def Width.encode : Width → UInt16 → List UInt8
  | byte, value => [Word.low value]
  | word, value => [Word.low value, Word.high value]

theorem Width.length_encode (width : Width) (value : UInt16) :
    (width.encode value).length = width.bytes := by
  cases width <;> rfl

namespace Address

theorem advance_zero (address : Address) : address.advance 0 = address := by
  simp only [advance, UInt16.add_zero]

theorem advance_advance (address : Address) (first second : UInt16) :
    (address.advance first).advance second = address.advance (first + second) := by
  simp only [advance, UInt16.add_assoc]

theorem advance_one_ne (address : Address) : address.advance 1 ≠ address := by
  intro hsame
  have hoffset : address.offset + 1 = address.offset := congrArg Address.offset hsame
  grind

-- Accesses to bytes that follow each other. They stay in the bank, and wrap around its end.

def loads (base : Address) (bytes : List UInt8) : List Access :=
  bytes.mapIdx fun i byte => .load ⟨base.bank, base.offset + i.toUInt16⟩ (.ok byte)

def stores (base : Address) (bytes : List UInt8) : List Access :=
  bytes.mapIdx fun i byte => .store ⟨base.bank, base.offset + i.toUInt16⟩ byte (.ok ())

private theorem offset_succ (base : Address) (i : Nat) :
    base.offset + (i + 1).toUInt16 = (base.advance 1).offset + i.toUInt16 := by
  have hsucc : (i + 1).toUInt16 = 1 + i.toUInt16 := by
    rw [Nat.add_comm]
    exact UInt16.ofNat_add 1 i
  rw [hsucc, ← UInt16.add_assoc]
  rfl

@[simp] theorem loads_nil (base : Address) : base.loads [] = [] :=
  rfl

@[simp] theorem loads_cons (base : Address) (byte : UInt8) (bytes : List UInt8) :
    base.loads (byte :: bytes) = .load base (.ok byte) :: (base.advance 1).loads bytes := by
  simp only [loads, List.mapIdx_cons, offset_succ]
  exact congrArg (fun address => Access.load address (.ok byte) :: _) (advance_zero base)

@[simp] theorem stores_nil (base : Address) : base.stores [] = [] :=
  rfl

@[simp] theorem stores_cons (base : Address) (byte : UInt8) (bytes : List UInt8) :
    base.stores (byte :: bytes) = .store base byte (.ok ()) :: (base.advance 1).stores bytes := by
  simp only [stores, List.mapIdx_cons, offset_succ]
  exact congrArg (fun address => Access.store address byte (.ok ()) :: _) (advance_zero base)

end Address

namespace Registers

-- The stores that push bytes, the first of them at S.
def pushes (r : Registers) : List UInt8 → List Access
  | [] => []
  | value :: values => .store ⟨0, r.s⟩ value (.ok ()) :: r.stackDown.pushes values

-- The loads that pull bytes, the first of them above S.
def pulls (r : Registers) : List UInt8 → List Access
  | [] => []
  | value :: values => .load ⟨0, r.stackUp.s⟩ (.ok value) :: r.stackUp.pulls values

def afterPushes (r : Registers) (values : List UInt8) : Registers :=
  values.foldl (fun r _ => r.stackDown) r

variable (r : Registers) (value : UInt8) (values : List UInt8)

@[simp] theorem pushes_nil : r.pushes [] = [] :=
  rfl

@[simp] theorem pushes_cons :
    r.pushes (value :: values) =
      .store ⟨0, r.s⟩ value (.ok ()) :: r.stackDown.pushes values :=
  rfl

@[simp] theorem pulls_nil : r.pulls [] = [] :=
  rfl

@[simp] theorem pulls_cons :
    r.pulls (value :: values) =
      .load ⟨0, r.stackUp.s⟩ (.ok value) :: r.stackUp.pulls values :=
  rfl

-- Pulling looks at S and E alone.
theorem pulls_congr {r other : Registers} (hs : r.s = other.s)
    (hemulation : r.emulation = other.emulation) (values : List UInt8) :
    r.pulls values = other.pulls values := by
  induction values generalizing r other with
  | nil => rfl
  | cons value values ih =>
      have hup : r.stackUp.s = other.stackUp.s := by simp only [stackUp, hs, hemulation]
      rw [pulls_cons, pulls_cons, hup, ih hup hemulation]

theorem pulls_pc (r : Registers) (pc : UInt16) (values : List UInt8) :
    { r with pc }.pulls values = r.pulls values := by
  apply pulls_congr <;> rfl

@[simp] theorem afterPushes_nil : r.afterPushes [] = r :=
  rfl

@[simp] theorem afterPushes_cons :
    r.afterPushes (value :: values) = r.stackDown.afterPushes values :=
  rfl

end Registers

namespace Execution

variable {μ α β : Type}

-- What is to come of work when nothing fails: the value that it answers with, the registers that
-- it leaves, and the accesses that it makes.
abbrev Course (α : Type) := α → Registers → List Access → Prop

-- Why work ended as it did: all accesses succeeded, or the last one failed, and nothing came after.
inductive Explains : List Access → Except ProcessorError α → Prop
  | ok {made : List Access} {value : α} (hmade : ∀ access ∈ made, access.error? = none) :
      Explains made (.ok value)
  | error {made : List Access} {last : Access} {error : BusError}
      (hmade : ∀ access ∈ made, access.error? = none) (hlast : last.error? = some error) :
      Explains (made ++ [last]) (.error (.bus error))

-- The same accesses up to one that fails, which is the last.
def CutShort (error : BusError) (whole made : List Access) : Prop :=
  ∃ before access after,
    whole = before ++ access :: after ∧ made = before ++ [access.fail error]

theorem CutShort.append_left {error : BusError} {whole made : List Access}
    (hcut : CutShort error whole made) (before : List Access) :
    CutShort error (before ++ whole) (before ++ made) := by
  obtain ⟨first, access, after, rfl, rfl⟩ := hcut
  exact ⟨before ++ first, access, after, by simp, by simp⟩

theorem CutShort.append_right {error : BusError} {whole made : List Access}
    (hcut : CutShort error whole made) (after : List Access) :
    CutShort error (whole ++ after) made := by
  obtain ⟨before, access, rest, rfl, rfl⟩ := hcut
  exact ⟨before, access, rest ++ after, by simp, rfl⟩

-- Work has gone along a course to the end, or until an access failed.
inductive Follows (course : Course α) : Except ProcessorError α → Registers → List Access → Prop
  | complete {value : α} {after : Registers} {made : List Access}
      (hcourse : course value after made) (hmade : ∀ access ∈ made, access.error? = none) :
      Follows course (.ok value) after made
  | cutShort {value : α} {ahead after : Registers} {whole made : List Access} {error : BusError}
      (hcourse : course value ahead whole) (hwhole : ∀ access ∈ whole, access.error? = none)
      (hcut : CutShort error whole made) : Follows course (.error (.bus error)) after made

-- The only access has failed.
theorem Follows.failed {course : Course α} (value : α) {ahead after : Registers} (access : Access)
    (hcourse : course value ahead [access]) (haccess : access.error? = none) (error : BusError) :
    Follows course (.error (.bus error)) after [access.fail error] :=
  .cutShort hcourse (fun _ hmem => List.mem_singleton.mp hmem ▸ haccess) ⟨[], access, [], rfl, rfl⟩

theorem Follows.explains {course : Course α} {answer : Except ProcessorError α} {after : Registers}
    {made : List Access} (hfollows : Follows course answer after made) : Explains made answer := by
  cases hfollows with
  | complete _ hmade => exact .ok hmade
  | cutShort _ hwhole hcut =>
      obtain ⟨before, access, rest, rfl, rfl⟩ := hcut
      exact .error (fun made hmem => hwhole made (List.mem_append_left _ hmem))
        (access.error?_fail _)

-- From given registers, and whatever the memory answers, the work follows a course.
def Takes (work : Execution (AccessLog μ) α) (r : Registers) (course : Course α) : Prop :=
  ∀ machine, machine.registers = r → ∃ made,
    (work machine).2.memory.accesses.toList = machine.memory.accesses.toList ++ made ∧
      Follows course (work machine).1 (work machine).2.registers made

namespace Takes

variable {r : Registers} {course : Course α}

theorem of_silent {work : Execution (AccessLog μ) α}
    (hwork : ∀ machine, machine.registers = r → ∃ value after,
      work machine = (.ok value, after) ∧ after.memory = machine.memory ∧
        course value after.registers []) : Takes work r course := by
  intro machine hr
  obtain ⟨value, after, hwork, hmemory, hcourse⟩ := hwork machine hr
  rw [hwork]
  refine ⟨[], by rw [hmemory, List.append_nil], ?_⟩
  exact .complete hcourse fun _ hmem => absurd hmem List.not_mem_nil

theorem mono {work : Execution (AccessLog μ) α} {other : Course α} (hwork : Takes work r course)
    (himp : ∀ value after made, course value after made → other value after made) :
    Takes work r other := by
  intro machine hr
  obtain ⟨made, hlog, hfollows⟩ := hwork machine hr
  refine ⟨made, hlog, ?_⟩
  generalize (work machine).1 = answer at hfollows ⊢
  cases hfollows with
  | complete hcourse hmade => exact .complete (himp _ _ _ hcourse) hmade
  | cutShort hcourse hwhole hcut => exact .cutShort (himp _ _ _ hcourse) hwhole hcut

-- The course of two pieces of work, one after the other. When the first is cut short, the second
-- still has a course from where the first would have ended.
theorem bind {first : Execution (AccessLog μ) α} {next : α → Execution (AccessLog μ) β}
    {course : Course β} {between : Course α} (hfirst : Takes first r between)
    (hnext : ∀ value ahead made, between value ahead made →
      Takes (next value) ahead fun result after more => course result after (made ++ more)) :
    Takes (first >>= next) r course := by
  intro machine hr
  have hboth {made more : List Access} (hmade : ∀ access ∈ made, access.error? = none)
      (hmore : ∀ access ∈ more, access.error? = none) :
      ∀ access ∈ made ++ more, access.error? = none := fun access hmem =>
    (List.mem_append.mp hmem).elim (hmade access) (hmore access)
  obtain ⟨made, hlog, hfollows⟩ := hfirst machine hr
  rw [bind_apply]
  rcases hone : first machine with ⟨answer, after⟩
  rw [hone] at hlog hfollows
  dsimp only at hlog hfollows
  cases hfollows with
  | @complete value _ _ hbetween hmade =>
      obtain ⟨more, hmore, hrest⟩ := hnext value _ _ hbetween after rfl
      refine ⟨made ++ more, by rw [hmore, hlog, List.append_assoc], ?_⟩
      dsimp only
      generalize (next value after).1 = answer at hrest
      cases hrest with
      | complete hcourse hfine => exact .complete hcourse (hboth hmade hfine)
      | cutShort hcourse hfine hcut =>
          exact .cutShort hcourse (hboth hmade hfine) (hcut.append_left made)
  | @cutShort value ahead _ whole _ _ hbetween hwhole hcut =>
      refine ⟨made, hlog, ?_⟩
      obtain ⟨more, -, hrest⟩ :=
        hnext value ahead whole hbetween { machine with registers := ahead } rfl
      generalize (next value { machine with registers := ahead }).1 = answer at hrest
      cases hrest with
      | complete hcourse hfine =>
          exact .cutShort hcourse (hboth hwhole hfine) (hcut.append_right _)
      | cutShort hcourse hfine _ =>
          exact .cutShort hcourse (hboth hwhole hfine) (hcut.append_right _)

theorem pure {value : α} (hcourse : course value r []) :
    Takes (pure value : Execution (AccessLog μ) α) r course :=
  of_silent fun _ hr => ⟨_, _, rfl, rfl, hr ▸ hcourse⟩

-- Work that reaches for nothing does not stand out in the course.

theorem registers_bind {next : Registers → Execution (AccessLog μ) α}
    (hnext : Takes (next r) r course) : Takes (registers >>= next) r course := by
  intro machine hr
  rw [registers_bind_apply, hr]
  exact hnext machine hr

theorem modifyRegisters {change : Registers → Registers} {course : Course Unit}
    (hcourse : course () (change r) []) :
    Takes (modifyRegisters change : Execution (AccessLog μ) Unit) r course :=
  of_silent fun machine hr => ⟨(), { machine with registers := change machine.registers }, rfl,
    rfl, hr ▸ hcourse⟩

theorem modifyInterrupts {change : InterruptState → InterruptState} {course : Course Unit}
    (hcourse : course () r []) :
    Takes (modifyInterrupts change : Execution (AccessLog μ) Unit) r course :=
  of_silent fun _ hr => ⟨_, _, rfl, rfl, hr ▸ hcourse⟩

theorem charge {cycles : Nat} {course : Course Unit} (hcourse : course () r []) :
    Takes (charge cycles : Execution (AccessLog μ) Unit) r course :=
  of_silent fun _ hr => ⟨_, _, rfl, rfl, hr ▸ hcourse⟩

theorem silent_bind {first : Execution (AccessLog μ) Unit} {next : Unit → Execution (AccessLog μ) α}
    {ahead : Registers} (hfirst : Takes first r fun _ after made => after = ahead ∧ made = [])
    (hnext : Takes (next ()) ahead course) : Takes (first >>= next) r course :=
  hfirst.bind fun _ _ _ hbetween => by
    obtain ⟨rfl, rfl⟩ := hbetween
    exact hnext

theorem modifyRegisters_bind {change : Registers → Registers}
    {next : Unit → Execution (AccessLog μ) α} (hnext : Takes (next ()) (change r) course) :
    Takes (Execution.modifyRegisters change >>= next) r course :=
  silent_bind (modifyRegisters ⟨rfl, rfl⟩) hnext

theorem modifyInterrupts_bind {change : InterruptState → InterruptState}
    {next : Unit → Execution (AccessLog μ) α} (hnext : Takes (next ()) r course) :
    Takes (Execution.modifyInterrupts change >>= next) r course :=
  silent_bind (modifyInterrupts ⟨rfl, rfl⟩) hnext

theorem charge_bind {cycles : Nat} {next : Unit → Execution (AccessLog μ) α}
    (hnext : Takes (next ()) r course) : Takes (Execution.charge cycles >>= next) r course :=
  silent_bind (charge ⟨rfl, rfl⟩) hnext

variable [Memory μ]

theorem loadByte (address : Address) :
    Takes (loadByte address : Execution (AccessLog μ) UInt8) r fun value after made =>
      after = r ∧ made = address.loads [value] := by
  intro machine hr
  simp only [Execution.loadByte, Memory.load]
  rcases Memory.load address machine.memory.memory with ⟨answer, memory⟩
  cases answer with
  | ok value =>
      refine ⟨address.loads [value], by simp, .complete ⟨hr, rfl⟩ ?_⟩
      simp [Access.error?]
  | error error =>
      refine ⟨[.load address (.error error)], by simp, ?_⟩
      -- any byte could have been there
      exact Follows.failed 0 (.load address (.ok 0)) ⟨rfl, by simp⟩ rfl error

theorem storeByte (address : Address) (value : UInt8) :
    Takes (storeByte address value : Execution (AccessLog μ) Unit) r fun _ after made =>
      after = r ∧ made = address.stores [value] := by
  intro machine hr
  simp only [Execution.storeByte, Memory.store]
  rcases Memory.store address value machine.memory.memory with ⟨answer, memory⟩
  cases answer with
  | ok =>
      refine ⟨address.stores [value], by simp, .complete ⟨hr, rfl⟩ ?_⟩
      simp [Access.error?]
  | error error =>
      refine ⟨[.store address value (.error error)], by simp, ?_⟩
      exact Follows.failed () (.store address value (.ok ())) ⟨rfl, by simp⟩ rfl error

-- Words, addresses and values of either width.

theorem loadWord (address : Address) :
    Takes (loadWord address : Execution (AccessLog μ) UInt16) r fun value after made =>
      after = r ∧ made = address.loads [Word.low value, Word.high value] := by
  refine (loadByte address).bind ?_
  rintro low _ _ ⟨rfl, rfl⟩
  refine (loadByte _).bind ?_
  rintro high _ _ ⟨rfl, rfl⟩
  exact .pure ⟨rfl, by simp⟩

theorem loadLong (address : Address) :
    Takes (loadLong address : Execution (AccessLog μ) Address) r fun value after made =>
      after = r ∧ made = address.loads [value.low, value.high, value.bank] := by
  refine (loadWord address).bind ?_
  rintro offset _ _ ⟨rfl, rfl⟩
  refine (loadByte _).bind ?_
  rintro bank _ _ ⟨rfl, rfl⟩
  refine .pure ⟨rfl, ?_⟩
  have htwo : (address.advance 1).advance 1 = address.advance 2 := address.advance_advance 1 1
  simp [Address.low, Address.high, htwo]

theorem load (address : Address) (width : Width) :
    Takes (load address width : Execution (AccessLog μ) UInt16) r fun value after made =>
      after = r ∧ width.truncate value = value ∧ made = address.loads (width.encode value) := by
  cases width with
  | byte =>
      refine (loadByte address).bind ?_
      rintro value _ _ ⟨rfl, rfl⟩
      exact .pure ⟨rfl, Word.lowByte_toUInt16 value, by simp [Width.encode, Word.low]⟩
  | word =>
      exact (loadWord address).mono fun value _ _ ⟨hafter, hmade⟩ =>
        ⟨hafter, Width.truncate_word value, hmade⟩

theorem store (address : Address) (value : UInt16) (width : Width) :
    Takes (store address value width : Execution (AccessLog μ) Unit) r fun _ after made =>
      after = r ∧ made = address.stores (width.encode value) := by
  cases width with
  | byte => exact storeByte address _
  | word =>
      refine (storeByte address _).bind ?_
      rintro _ _ _ ⟨rfl, rfl⟩
      exact (storeByte _ _).mono fun _ _ _ ⟨hafter, hmade⟩ =>
        ⟨hafter, by simp [hmade, Width.encode]⟩

-- The stack.

theorem pushByte (value : UInt8) :
    Takes (pushByte value : Execution (AccessLog μ) Unit) r fun _ after made =>
      after = r.stackDown ∧ made = r.pushes [value] := by
  refine registers_bind ((storeByte _ _).bind ?_)
  rintro _ _ _ ⟨rfl, rfl⟩
  exact modifyRegisters ⟨rfl, by simp⟩

theorem pushWord (value : UInt16) :
    Takes (pushWord value : Execution (AccessLog μ) Unit) r fun _ after made =>
      after = r.afterPushes [Word.high value, Word.low value] ∧
        made = r.pushes [Word.high value, Word.low value] := by
  refine (pushByte _).bind ?_
  rintro _ _ _ ⟨rfl, rfl⟩
  exact (pushByte _).mono fun _ _ _ ⟨hafter, hmade⟩ => ⟨hafter, by simp [hmade]⟩

theorem pullByte :
    Takes (pullByte : Execution (AccessLog μ) UInt8) r fun value after made =>
      after = r.stackUp ∧ made = r.pulls [value] := by
  refine modifyRegisters_bind (registers_bind ?_)
  exact (loadByte _).mono fun _ _ _ ⟨hafter, hmade⟩ => ⟨hafter, by simp [hmade]⟩

theorem pullWord :
    Takes (pullWord : Execution (AccessLog μ) UInt16) r fun value after made =>
      after = r.stackUp.stackUp ∧ made = r.pulls [Word.low value, Word.high value] := by
  refine pullByte.bind ?_
  rintro low _ _ ⟨rfl, rfl⟩
  refine pullByte.bind ?_
  rintro high _ _ ⟨rfl, rfl⟩
  exact .pure ⟨rfl, by simp⟩

end Takes

-- Writing accesses down changes nothing else, so what is known of the log is known without one.
theorem Takes.follows {logged : Execution (AccessLog μ) α} {work : Execution μ α}
    {course : Course α} (machine : Machine μ) (htakes : Takes logged machine.registers course)
    (hlogs : Logs logged work) :
    Follows course (work machine).1 (work machine).2.registers (accesses logged machine) := by
  obtain ⟨made, hlog, hfollows⟩ := htakes machine.logged rfl
  rw [accesses_eq, hlog, hlogs.eq_unlogged machine]
  exact hfollows

-- What has been written down before does not matter.

def Appended (before : List Access) (log other : AccessLog μ) : Prop :=
  log.memory = other.memory ∧ log.accesses.toList = before ++ other.accesses.toList

theorem lockstep_appended [Memory μ] (before : List Access) :
    Lockstep (fun _ => True) (Appended (μ := μ) before) where
  changed _ _ := trivial
  loaded address log other hlog := by
    obtain ⟨memory, accesses⟩ := log
    obtain ⟨memory', accesses'⟩ := other
    obtain ⟨rfl, haccesses⟩ : memory = memory' ∧
      accesses.toList = before ++ accesses'.toList := hlog
    exact ⟨rfl, rfl, by simp [Memory.load, haccesses]⟩
  stored address value log other hlog := by
    obtain ⟨memory, accesses⟩ := log
    obtain ⟨memory', accesses'⟩ := other
    obtain ⟨rfl, haccesses⟩ : memory = memory' ∧
      accesses.toList = before ++ accesses'.toList := hlog
    exact ⟨rfl, rfl, by simp [Memory.store, haccesses]⟩

section Bind

variable {first : Execution (AccessLog μ) α} {work : Execution μ α}
  {next : α → Execution (AccessLog μ) β} (hlogs : Logs first work) {machine after : Machine μ}
include hlogs

theorem accesses_bind_of_ok
    (hnext : ∀ value before,
      Matched (Alike (fun _ => True) (Appended before)) (next value) (next value))
    {value : α} (hwork : work machine = (.ok value, after)) :
    accesses (first >>= next) machine =
      accesses first machine ++ accesses (next value) after := by
  rw [hlogs.eq_unlogged machine] at hwork
  rw [accesses_eq, accesses_eq, accesses_eq, bind_apply]
  rcases hfirst : first machine.logged with ⟨answer, later⟩
  rw [hfirst] at hwork
  cases hwork
  have hlater : Alike (fun _ => True) (Appended later.memory.accesses.toList) later
      later.unlogged.logged := ⟨rfl, rfl, rfl, trivial, rfl, by simp [Machine.logged]⟩
  exact (hnext value _ later _ hlater).2.memory.2

theorem accesses_bind_of_error {error : ProcessorError}
    (hwork : work machine = (.error error, after)) :
    accesses (first >>= next) machine = accesses first machine := by
  rw [hlogs.eq_unlogged machine] at hwork
  rw [accesses_eq, accesses_eq, bind_apply]
  rcases hfirst : first machine.logged with ⟨answer, later⟩
  rw [hfirst] at hwork
  cases hwork
  rfl

end Bind

end Execution

end Console816
