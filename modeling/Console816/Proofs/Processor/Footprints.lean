import Console816.Proofs.Processor.Failures

namespace Console816

-- Where an instruction stores.
inductive Footprint where
  -- the data at its operand
  | operand (width : Width)
  -- so many bytes of the stack
  | stack (count : Nat)
  -- a block of bytes, up or down
  | block (delta : UInt16)
  | nothing

def Mnemonic.footprint (r : Registers) : Mnemonic → Footprint
  | sta | stz | asl | lsr | rol | ror | inc | dec | tsb | trb => .operand r.accumulatorWidth
  | stx | sty => .operand r.indexWidth
  | pha => .stack r.accumulatorWidth.bytes
  | phx | phy => .stack r.indexWidth.bytes
  | phb | phk | php => .stack 1
  | phd | pea | pei | per | jsr => .stack 2
  | jsl => .stack 3
  | brk | cop => .stack (if r.emulation then 3 else 4)
  | mvn => .block 1
  | mvp => .block 0xFFFF
  | _ => .nothing

def Action.footprint (r : Registers) : Action → Footprint
  | storeZero | putBits _ | shift _ | step _ => .operand r.accumulatorWidth
  | store register => .operand (r.dataWidth register)
  | push source => .stack (r.pushed source).2.bytes
  | pushAddress | call => .stack 2
  | callLong => .stack 3
  | raise _ => .stack (if r.emulation then 3 else 4)
  | blockMove delta => .block delta
  | _ => .nothing

theorem Mnemonic.footprint_eq (r : Registers) (mnemonic : Mnemonic) :
    mnemonic.footprint r = mnemonic.action.footprint r := by
  cases mnemonic <;> rfl

-- What an instruction stores, between the registers before and after. `made` is what it does to
-- memory once it has been read.
def Footprint.Covers (r after : Registers) (operand : Operand) (made : List Access) :
    Footprint → Prop
  | .operand width => ∃ pointer loaded location value,
      operand.Locates r pointer location ∧ (∀ access ∈ loaded, access.isStore = false) ∧
        made = pointer ++ loaded ++ location.stores width value
  | .stack count =>
      (made.filter Access.isStore).map Access.address =
          (List.range count).map (Stack.cell r.emulation r.s) ∧
        after.s = Stack.below r.emulation r.s count
  | .block delta => ∃ target source, operand = .blockMove target source ∧
      (made.filter Access.isStore).map Access.address =
        (List.range (r.a.toNat + 1)).map fun i =>
          ⟨target, r.indexWidth.truncate (r.y + i.toUInt16 * delta)⟩
  | .nothing => made.filter Access.isStore = []

namespace Address

variable (base : Address) (bytes : List UInt8)

@[simp] theorem filter_loads : (base.loads bytes).filter Access.isStore = [] := by
  induction bytes generalizing base with
  | nil => rfl
  | cons byte bytes ih => rw [loads_cons]; exact ih _

end Address

namespace Operand

variable {r : Registers} {operand : Operand} {pointer : List Access}

-- Operands are found by loading.

theorem Finds.filter {address : Address} (hfinds : operand.Finds r pointer address) :
    pointer.filter Access.isStore = [] := by
  cases hfinds <;> rfl

theorem Locates.filter {location : Location} (hlocates : operand.Locates r pointer location) :
    pointer.filter Access.isStore = [] := by
  cases hlocates with
  | accumulator | constant | byteConstant => rfl
  | memory hfinds => exact hfinds.filter

end Operand

theorem Location.Holds.filter {r : Registers} {width : Width} {location : Location} {value : UInt16}
    {loaded : List Access} (hholds : location.Holds r width value loaded) :
    loaded.filter Access.isStore = [] := by
  cases hholds with
  | accumulator | constant => rfl
  | memory address => exact address.filter_loads _

namespace Registers

variable (r : Registers) (bytes : List UInt8)

@[simp] theorem filter_pulls : (r.pulls bytes).filter Access.isStore = [] := by
  induction bytes generalizing r with
  | nil => rfl
  | cons byte bytes ih => exact ih r.stackUp

@[simp] theorem filter_pushes : (r.pushes bytes).filter Access.isStore = r.pushes bytes := by
  induction bytes generalizing r with
  | nil => rfl
  | cons byte bytes ih => exact congrArg (_ :: ·) (ih r.stackDown)

-- Pushes fill the cells below S, one after the other.

variable {r} in
theorem pushes_below {s : UInt16} {count : Nat} (hs : r.s = Stack.below r.emulation s count) :
    (r.pushes bytes).map Access.address =
        (List.range' count bytes.length).map (Stack.cell r.emulation s) ∧
      (r.afterPushes bytes).s = Stack.below r.emulation s (count + bytes.length) := by
  induction bytes generalizing r count with
  | nil => exact ⟨rfl, hs⟩
  | cons byte bytes ih =>
      have hdown := r.stackDown_below s count hs
      have hnext : r.stackDown.s = Stack.below r.stackDown.emulation s (count + 1) := by rw [hdown]
      obtain ⟨haddresses, hafter⟩ := ih hnext
      have hemulation : r.stackDown.emulation = r.emulation := rfl
      rw [hemulation] at haddresses hafter
      constructor
      · rw [pushes_cons, List.map_cons, haddresses, List.length_cons, List.range'_succ,
          List.map_cons]
        exact congrArg (fun offset => Address.mk 0 offset :: _) hs
      · rw [afterPushes_cons, hafter, List.length_cons]
        congr 1
        omega

variable {r} in
theorem covers_pushes (hwidths : r.WidthsAgree) {after : Registers} {operand : Operand}
    {made : List Access} {count : Nat} (hcount : bytes.length = count)
    (hmade : made.filter Access.isStore = r.pushes bytes)
    (hs : after.s = (r.afterPushes bytes).s) :
    (Footprint.stack count).Covers r after operand made := by
  subst hcount
  have hbelow : r.s = Stack.below r.emulation r.s 0 := (Stack.below_zero hwidths.page).symm
  obtain ⟨haddresses, hafter⟩ := pushes_below bytes hbelow
  rw [← List.range_eq_range'] at haddresses
  rw [Nat.zero_add] at hafter
  exact ⟨hmade ▸ haddresses, hs.trans hafter⟩

-- Block moves store side by side, and Y counts only up to its width.

variable {r} in
theorem moves_offsets (target source : UInt8) (delta : UInt16) {y : UInt16} {count : Nat}
    (hy : r.y = r.indexWidth.truncate (y + count.toUInt16 * delta)) :
    ((r.moves target source delta bytes).filter Access.isStore).map Access.address =
      (List.range' count bytes.length).map fun i =>
        ⟨target, r.indexWidth.truncate (y + i.toUInt16 * delta)⟩ := by
  induction bytes generalizing r count with
  | nil => rfl
  | cons byte bytes ih =>
      have hnext : (r.moveOn delta).y =
          (r.moveOn delta).indexWidth.truncate (y + (count + 1).toUInt16 * delta) :=
        (congrArg (fun y => r.indexWidth.truncate (y + delta)) hy).trans
          (Width.truncate_succ _ y delta count)
      rw [List.length_cons, List.range'_succ, List.map_cons, ← hy]
      exact congrArg (_ :: ·) (ih hnext)

variable {r} in
theorem covers_moves (hwidths : r.WidthsAgree) {after : Registers} (target source : UInt8)
    (delta : UInt16) (hcount : bytes.length = r.a.toNat + 1) :
    (Footprint.block delta).Covers r after (.blockMove target source)
      ({ r with dbr := target }.moves target source delta bytes) := by
  have hy : r.y = r.indexWidth.truncate (r.y + Nat.toUInt16 0 * delta) := by
    have hzero : r.y + Nat.toUInt16 0 * delta = r.y :=
      (congrArg (r.y + ·) UInt16.zero_mul).trans (UInt16.add_zero r.y)
    rw [hzero, hwidths.truncate_y]
  refine ⟨target, source, rfl, ?_⟩
  rw [← hcount, List.range_eq_range']
  exact moves_offsets bytes target source delta (r := { r with dbr := target }) hy

end Registers

namespace Execution

theorem length_handlerFrame (interrupt : Interrupt) (r : Registers) :
    (handlerFrame interrupt r r.pc).length = if r.emulation then 3 else 4 := by
  unfold handlerFrame
  split <;> rfl

-- An entry stores its frame and no more.
theorem filter_entryAccesses (interrupt : Interrupt) (r : Registers) (low high : UInt8) :
    (entryAccesses interrupt r low high).filter Access.isStore =
      r.pushes (if interrupt = .reset then [] else handlerFrame interrupt r r.pc) := by
  rw [entryAccesses, List.filter_append, Registers.filter_pushes]
  exact List.append_nil _

theorem Performs.covers {r after : Registers} {operand : Operand} {action : Action}
    {made : List Access} (hwidths : r.WidthsAgree)
    (hperforms : Performs r operand action made after) :
    (action.footprint r).Covers r after operand made := by
  cases hperforms with
  | reads hwidth hlocates hholds =>
      have hnothing : action.footprint r = .nothing := by
        cases action <;> first | rfl | cases hwidth
      rw [hnothing, Footprint.Covers, List.filter_append, hlocates.filter, hholds.filter]
      rfl
  | writes hwritten hfinds =>
      cases action <;> cases hwritten
      all_goals exact ⟨_, [], _, _, .memory hfinds, nofun, by rw [List.append_nil]; rfl⟩
  | changes hchanged hlocates hholds =>
      have hloaded := List.filter_eq_nil_iff.mp hholds.filter
      cases action <;> cases hchanged
      all_goals
        refine ⟨_, _, _, _, hlocates, fun access hmem => ?_, (List.append_assoc ..).symm⟩
        simpa using hloaded access hmem
  | moves hoperand hcount =>
      subst hoperand
      exact Registers.covers_moves _ hwidths _ _ _ hcount
  | pushes hs =>
      refine Registers.covers_pushes _ hwidths ?_ (Registers.filter_pushes ..) hs
      rw [Registers.pushedBytes, List.length_reverse, Width.length_encode]
  | pushesAddress hfinds hs =>
      refine Registers.covers_pushes _ hwidths rfl ?_ hs
      rw [List.filter_append, hfinds.filter, Registers.filter_pushes, List.nil_append]
  | calls hfinds hs =>
      refine Registers.covers_pushes _ hwidths rfl ?_ hs
      rw [List.filter_append, hfinds.filter, Registers.filter_pushes, List.append_nil]
  | callsLong hfinds hs =>
      refine Registers.covers_pushes _ hwidths rfl ?_ hs
      rw [List.filter_append, hfinds.filter, Registers.filter_pushes, List.append_nil]
  | raises hinterrupt hs =>
      refine Registers.covers_pushes _ hwidths (length_handlerFrame ..) ?_ hs
      rw [filter_entryAccesses, if_neg hinterrupt]
  | branches hfinds => exact hfinds.filter
  | jumps hfinds => exact hfinds.filter
  | jumpsLong hfinds => exact hfinds.filter
  | pulls => exact Registers.filter_pulls _ _
  | returnsNear => exact Registers.filter_pulls _ _
  | returnsLong => exact Registers.filter_pulls _ _
  | returnsInterrupt => exact Registers.filter_pulls _ _
  | silent hsilent => cases action <;> first | rfl | cases hsilent

variable {μ α : Type} [Memory μ]

-- No access to the memory fails, now or after others.
def NeverFails (memory : μ) : Prop :=
  ∃ sound : μ → Prop, sound memory ∧ ∀ memory, sound memory →
    (∀ address, (∃ value, (Memory.load address memory).1 = .ok value) ∧
      sound (Memory.load address memory).2) ∧
    ∀ address value, (Memory.store address value memory).1 = .ok () ∧
      sound (Memory.store address value memory).2

theorem NeverFails.load {memory : μ} (hmemory : NeverFails memory) (address : Address) :
    (∃ value, (Memory.load address memory).1 = .ok value) ∧
      NeverFails (Memory.load address memory).2 := by
  obtain ⟨sound, hsound, hsteps⟩ := hmemory
  obtain ⟨hvalue, hafter⟩ := (hsteps memory hsound).1 address
  exact ⟨hvalue, sound, hafter, hsteps⟩

theorem NeverFails.store {memory : μ} (hmemory : NeverFails memory) (address : Address)
    (value : UInt8) :
    (Memory.store address value memory).1 = .ok () ∧
      NeverFails (Memory.store address value memory).2 := by
  obtain ⟨sound, hsound, hsteps⟩ := hmemory
  obtain ⟨hanswer, hafter⟩ := (hsteps memory hsound).2 address value
  exact ⟨hanswer, sound, hafter, hsteps⟩

theorem lockstep_neverFails :
    Lockstep (fun _ => True) fun memory other : μ => memory = other ∧ NeverFails memory :=
  lockstep_of_memory (fun address _ hmemory => (hmemory.load address).2)
    fun address value _ hmemory => (hmemory.store address value).2

-- Nothing has failed, and nothing will.
def Sound (log : AccessLog μ) : Prop :=
  NeverFails log.memory ∧ ∀ access ∈ log.accesses, access.error? = none

theorem lockstep_sound :
    Lockstep (fun _ => True) fun log other : AccessLog μ => log = other ∧ Sound log := by
  have hpush {log : AccessLog μ} (hsound : Sound log) {access : Access}
      (haccess : access.error? = none) :
      ∀ made ∈ log.accesses.push access, made.error? = none := by
    intro made hmem
    rcases Array.mem_push.mp hmem with hmem | rfl
    · exact hsound.2 made hmem
    · exact haccess
  refine lockstep_of_memory ?_ ?_
  · intro address log hsound
    obtain ⟨⟨value, hvalue⟩, hafter⟩ := hsound.1.load address
    exact ⟨hafter, hpush hsound (by rw [hvalue]; rfl)⟩
  · intro address value log hsound
    obtain ⟨hanswer, hafter⟩ := hsound.1.store address value
    exact ⟨hafter, hpush hsound (by rw [hanswer]; rfl)⟩

section Logged

variable {logged : Execution (AccessLog μ) α} {work : Execution μ α} (hlogs : Logs logged work)
include hlogs

omit [Memory μ] in
-- What accesses keep of a log holds of the memory and the accesses in the end.
theorem kept_log {kept : AccessLog μ → Prop}
    (hkept : Matched (Alike (fun _ => True) fun log other => log = other ∧ kept log) logged logged)
    (machine : Machine μ) (hempty : kept ⟨machine.memory, #[]⟩) :
    kept ⟨(work machine).2.memory, (accesses logged machine).toArray⟩ := by
  have hafter : kept (logged machine.logged).2.memory := kept_of_matched hkept hempty
  rw [accesses_eq, hlogs.eq_unlogged machine]
  exact hafter

-- So what takes a course gets to its end.
theorem Takes.completes
    (hsound : Matched (Alike (fun _ => True) fun log other => log = other ∧ Sound log)
      logged logged)
    {machine : Machine μ} {course : Course α} (htakes : Takes logged machine.registers course)
    (hmemory : NeverFails machine.memory) :
    ∃ value after, work machine = (.ok value, after) ∧
      course value after.registers (accesses logged machine) := by
  have hempty : Sound (⟨machine.memory, #[]⟩ : AccessLog μ) :=
    ⟨hmemory, fun _ hmem => absurd hmem (Array.not_mem_empty _)⟩
  have hfine := (kept_log hlogs hsound machine hempty).2
  have hfollows := htakes.follows machine hlogs
  rcases hwork : work machine with ⟨answer, after⟩
  rw [hwork] at hfollows
  generalize accesses logged machine = made at hfine hfollows
  cases hfollows with
  | complete hcourse _ => exact ⟨_, after, rfl, hcourse⟩
  | @cutShort _ _ _ _ _ error _ _ hcut =>
      obtain ⟨before, access, _, -, rfl⟩ := hcut
      have hmem : access.fail error ∈ before ++ [access.fail error] :=
        List.mem_append_right before List.mem_cons_self
      have hlast := hfine _ (List.mem_toArray.mpr hmem)
      rw [access.error?_fail] at hlast
      cases hlast

end Logged

def stores (work : Execution (AccessLog μ) α) (machine : Machine μ) : List Access :=
  (accesses work machine).filter Access.isStore

-- A view of memory as bytes, which loads leave alone and stores change only where they store.
structure ByteView (byte : μ → Address → UInt8) : Prop where
  load : ∀ address memory, byte (Memory.load address memory).2 = byte memory
  store : ∀ address value memory other, other ≠ address →
    byte (Memory.store address value memory).2 other = byte memory other

-- Bytes to which nothing has been stored are what they were.
def Framed (byte : μ → Address → UInt8) (memory : μ) (log : AccessLog μ) : Prop :=
  ∀ address, (∀ access ∈ log.accesses, access.isStore = true → access.address ≠ address) →
    byte log.memory address = byte memory address

theorem lockstep_framed {byte : μ → Address → UInt8} (hbyte : ByteView byte) (memory : μ) :
    Lockstep (fun _ => True)
      fun log other : AccessLog μ => log = other ∧ Framed byte memory log := by
  refine lockstep_of_memory ?_ ?_
  · intro address log hframed other hother
    have hload := congrFun (hbyte.load address log.memory) other
    refine hload.trans (hframed other fun access hmem => ?_)
    exact hother access (Array.mem_push_of_mem _ hmem)
  · intro address value log hframed other hother
    have hne : other ≠ address := fun heq => hother _ Array.mem_push_self rfl heq.symm
    have hstore := hbyte.store address value log.memory other hne
    refine hstore.trans (hframed other fun access hmem => ?_)
    exact hother access (Array.mem_push_of_mem _ hmem)

theorem framed_tick {byte : μ → Address → UInt8} (hbyte : ByteView byte) (machine : Machine μ)
    {address : Address}
    (haddress : ∀ access ∈ stores (tick .standard) machine, access.address ≠ address) :
    byte (tick .standard machine).2.memory address = byte machine.memory address := by
  have hframed := kept_log (lockstep_log.tick .standard)
    ((lockstep_framed hbyte machine.memory).tick .standard) machine fun _ _ => rfl
  refine hframed address fun access hmem hstore => haddress access ?_
  exact List.mem_filter.mpr ⟨List.mem_toArray.mp hmem, hstore⟩

-- What the entry of a tick pushes, if there is one.
def entryFrame (r : Registers) : Option Interrupt → List UInt8
  | none | some .reset => []
  | some interrupt => handlerFrame interrupt r r.pc

-- All that an instruction and all that a tick stores.
structure StoresAccounted (machine : Machine μ) : Prop where
  dispatch : ∃ operation operand rest after, dispatch .standard machine = (.ok (), after) ∧
    Executes .standard machine.registers operation operand rest
      (accesses (dispatch .standard) machine) after.registers ∧
    (operation.mnemonic.footprint machine.registers).Covers (machine.registers.past operation)
      after.registers operand rest
  -- a tick may enter a handler, and comes to an instruction in the same circumstances
  tick : ∃ taken entered, acknowledge machine = (.ok taken, entered) ∧
    entered.registers.WidthsAgree ∧ NeverFails entered.memory ∧
    stores (Execution.tick .standard) machine =
      machine.registers.pushes (entryFrame machine.registers taken) ++
        if entered.interrupts.isHalted then [] else stores (Execution.dispatch .standard) entered
  frame : ∀ byte : μ → Address → UInt8, ByteView byte → ∀ address,
    (∀ access ∈ stores (Execution.tick .standard) machine, access.address ≠ address) →
      byte (Execution.tick .standard machine).2.memory address = byte machine.memory address

theorem dispatch_covers {machine : Machine μ} (hwidths : machine.registers.WidthsAgree)
    (hmemory : NeverFails machine.memory) :
    ∃ operation operand rest after, dispatch .standard machine = (.ok (), after) ∧
      Executes .standard machine.registers operation operand rest
        (accesses (dispatch .standard) machine) after.registers ∧
      (operation.mnemonic.footprint machine.registers).Covers (machine.registers.past operation)
        after.registers operand rest := by
  obtain ⟨_, after, hdispatch, operation, operand, rest, hexecutes⟩ :=
    Takes.completes (lockstep_log.dispatch .standard) (lockstep_sound.dispatch .standard)
      (Takes.dispatch machine.registers) hmemory
  refine ⟨operation, operand, rest, after, hdispatch, hexecutes, ?_⟩
  rw [Mnemonic.footprint_eq]
  -- PC matters to no footprint
  exact hexecutes.performs.covers { hwidths with }

theorem tick_stores {machine : Machine μ} (hwidths : machine.registers.WidthsAgree)
    (hmemory : NeverFails machine.memory) :
    ∃ taken entered, acknowledge machine = (.ok taken, entered) ∧
      entered.registers.WidthsAgree ∧ NeverFails entered.memory ∧
      stores (tick .standard) machine =
        machine.registers.pushes (entryFrame machine.registers taken) ++
          if entered.interrupts.isHalted then [] else stores (dispatch .standard) entered := by
  obtain ⟨taken, entered, hentry, hmade⟩ :=
    Takes.completes lockstep_log.acknowledge lockstep_sound.acknowledge
      (Takes.acknowledge (r := machine.registers)) hmemory
  have hentered := widthsAgree_of_matched lockstep_widths.acknowledge hwidths
  have hunfailing := kept_of_matched lockstep_neverFails.acknowledge hmemory
  rw [hentry] at hentered hunfailing
  refine ⟨taken, entered, hentry, hentered, hunfailing, ?_⟩
  have hframe : (accesses acknowledge machine).filter Access.isStore =
      machine.registers.pushes (entryFrame machine.registers taken) := by
    cases taken with
    | none => exact congrArg (List.filter Access.isStore) hmade
    | some interrupt =>
        obtain ⟨low, high, hmade⟩ := hmade
        rw [hmade, filter_entryAccesses]
        cases interrupt <;> rfl
  rw [stores, accesses_tick, List.filter_append, hframe, dispatchAccesses, hentry]
  dsimp only
  split <;> rfl

-- Instructions store what they are for and nothing else, and no other byte changes.
theorem stores_accounted {machine : Machine μ} (hwidths : machine.registers.WidthsAgree)
    (hmemory : NeverFails machine.memory) : StoresAccounted machine where
  dispatch := dispatch_covers hwidths hmemory
  tick := tick_stores hwidths hmemory
  frame _ hbyte _ := framed_tick hbyte machine

theorem neverFails_flat (memory : FlatMemory) : NeverFails memory :=
  ⟨fun _ => True, trivial, fun _ _ => ⟨fun _ => ⟨⟨_, rfl⟩, trivial⟩, fun _ _ => ⟨rfl, trivial⟩⟩⟩

theorem byteView_flat : ByteView FlatMemory.byte where
  load _ _ := rfl
  store _ value memory _ hne := memory.set_byte_of_ne value hne

-- A push with S at the bottom of page 1.
theorem stores_accounted_pha :
    let machine : Machine FlatMemory := ⟨.powerOn, {}, ⟨fun _ => 0x48⟩, 0⟩
    machine.registers.WidthsAgree ∧ NeverFails machine.memory ∧ StoresAccounted machine ∧
      (stores (tick .standard) machine).map Access.address = [⟨0, 0x100⟩] ∧
      (tick .standard machine).2.registers.s = 0x1FF ∧
      ∀ address, address ≠ ⟨0, 0x100⟩ → (tick .standard machine).2.memory.byte address = 0x48 := by
  intro machine
  have hmemory : NeverFails machine.memory := neverFails_flat _
  have haccounted := stores_accounted Registers.widthsAgree_powerOn hmemory
  have hstores : (stores (tick .standard) machine).map Access.address = [⟨0, 0x100⟩] := by
    decide +kernel
  have hs : (tick .standard machine).2.registers.s = 0x1FF := by decide +kernel
  refine ⟨Registers.widthsAgree_powerOn, hmemory, haccounted, hstores, hs, fun address hne => ?_⟩
  refine haccounted.frame FlatMemory.byte byteView_flat address fun access hmem => ?_
  have haddress := List.mem_map_of_mem (f := Access.address) hmem
  rw [hstores, List.mem_singleton] at haddress
  exact haddress ▸ hne.symm

end Execution

end Console816
