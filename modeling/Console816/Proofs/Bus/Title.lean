import Console816.Bus.State
import Console816.Proofs.Processor.Lockstep

namespace Console816

def Cartridge.untitled (cartridge : Cartridge) : Cartridge := { cartridge with title := "" }

theorem Cartridge.untitled_write (cartridge : Cartridge) (address : Address) (value : UInt8) :
    cartridge.untitled.write address value = (cartridge.write address value).untitled := by
  have hindex (index : Nat) :
      cartridge.untitled.sramIndex? index = cartridge.sramIndex? index := rfl
  have hmapping : cartridge.untitled.mapping = cartridge.mapping := rfl
  unfold write
  rw [hmapping]
  split
  · rw [hindex]
    split <;> rfl
  · rfl

namespace Bus

-- The bus without the title of its cartridge, which is all that no access ever looks at.
def untitled (bus : Bus) : Bus := { bus with cartridge := bus.cartridge.map Cartridge.untitled }

def untitledAfter {α : Type} (answer : α × Bus) : α × Bus := (answer.1, answer.2.untitled)

theorem untitled_responder (bus : Bus) (address : Address) :
    bus.untitled.responder address = bus.responder address := by
  have hany : bus.untitled.cartridge.any (·.answersExpansion address) =
      bus.cartridge.any (·.answersExpansion address) := by
    simp only [untitled, Option.any_map]
    rfl
  unfold responder
  rw [hany]

theorem untitled_readB (bus : Bus) (register : UInt8) :
    bus.untitled.readB register = untitledAfter (bus.readB register) := by
  simp only [readB, untitledAfter, apply_ite untitled]
  rfl

theorem untitled_writeB (bus : Bus) (register value : UInt8) :
    bus.untitled.writeB register value = (bus.writeB register value).untitled := by
  simp only [writeB, apply_ite untitled]
  rfl

theorem untitled_readCartridge (bus : Bus) (address : Address) :
    bus.untitled.readCartridge address = untitledAfter (bus.readCartridge address) := by
  obtain ⟨workRam, io, bRegisters, cartridge, latch, pause⟩ := bus
  cases cartridge with
  | none => rfl
  | some cartridge =>
      have hread : cartridge.untitled.read address = cartridge.read address := rfl
      simp only [readCartridge, untitled, Option.map_some, hread]
      cases cartridge.read address <;> rfl

theorem untitled_writeCartridge (bus : Bus) (address : Address) (value : UInt8) :
    bus.untitled.writeCartridge address value = (bus.writeCartridge address value).untitled := by
  obtain ⟨workRam, io, bRegisters, cartridge, latch, pause⟩ := bus
  cases cartridge with
  | none => rfl
  | some cartridge =>
      simp only [writeCartridge, untitled, Option.map_some, Cartridge.untitled_write]

theorem untitled_holdIfAny (answer : Option UInt8 × Bus) :
    holdIfAny (untitledAfter answer) = untitledAfter (holdIfAny answer) := by
  rcases answer with ⟨value, bus⟩
  cases value <;> rfl

theorem untitled_read (bus : Bus) (address : Address) :
    bus.untitled.read address = untitledAfter (bus.read address) := by
  unfold read
  rw [untitled_responder]
  split
  · rfl
  · rw [untitled_readB, untitled_holdIfAny]
  · rename_i offset _
    exact untitled_holdIfAny (bus.readIo offset)
  · exact bus.untitled_readCartridge address
  · rfl

theorem untitled_readA (bus : Bus) (address : Address) :
    bus.untitled.readA address = untitledAfter (bus.readA address) := by
  unfold readA
  rw [untitled_responder]
  split
  · rfl
  · rfl
  · exact bus.untitled_read address

theorem untitled_writeA (bus : Bus) (address : Address) (value : UInt8) :
    bus.untitled.writeA address value = (bus.writeA address value).untitled := by
  unfold writeA
  rw [untitled_responder]
  split
  · rfl
  · exact bus.untitled_writeCartridge address value
  · rfl

theorem untitled_transferByte (bus : Bus) (channel : DmaChannel) (index : Nat) (offset : UInt16) :
    bus.untitled.transferByte channel index offset =
      untitledAfter (bus.transferByte channel index offset) := by
  simp only [transferByte, untitled_readB, untitled_readA]
  split
  · exact congrArg (Except.ok (), ·) (untitled_writeA ..)
  · rcases bus.readA ⟨channel.aBank, offset⟩ with ⟨answer, after⟩
    cases answer with
    | ok value => exact congrArg (Except.ok (), ·) (untitled_writeB ..)
    | error error => rfl

theorem untitled_transferBytes (bus : Bus) (channel : DmaChannel) (index : Nat) (offset : UInt16)
    (count : Nat) :
    bus.untitled.transferBytes channel index offset count =
      untitledAfter (bus.transferBytes channel index offset count) := by
  induction count generalizing bus index offset with
  | zero => rfl
  | succ remaining ih =>
      simp only [transferBytes, untitled_transferByte]
      rcases bus.transferByte channel index offset with ⟨answer, after⟩
      cases answer with
      | ok => exact ih after _ _
      | error error => rfl

theorem untitled_runChannel (bus : Bus) (index : Fin 8) :
    bus.untitled.runChannel index = untitledAfter (bus.runChannel index) := by
  have hio : bus.untitled.io = bus.io := rfl
  simp only [runChannel, hio, untitled_transferBytes]
  rcases bus.transferBytes bus.io.channels[index] 0 bus.io.channels[index].aOffset
    bus.io.channels[index].transferSize with ⟨answer, after⟩
  cases answer <;> rfl

theorem untitled_runChannels (bus : Bus) (indices : List (Fin 8)) :
    bus.untitled.runChannels indices = untitledAfter (bus.runChannels indices) := by
  induction indices generalizing bus with
  | nil => rfl
  | cons index indices ih =>
      simp only [runChannels, untitled_runChannel]
      rcases bus.runChannel index with ⟨answer, after⟩
      cases answer with
      | ok => exact ih after
      | error error => rfl

theorem untitled_write (bus : Bus) (address : Address) (value : UInt8) :
    bus.untitled.write address value = untitledAfter (bus.write address value) := by
  unfold write
  rw [untitled_responder]
  split
  · rfl
  · exact congrArg (Except.ok (), ·) (bus.untitled_writeB _ value)
  · rename_i offset _
    dsimp only
    split
    · exact untitled_runChannels { bus with io := bus.io.write offset value } _
    · rfl
  · exact congrArg (Except.ok (), ·) (bus.untitled_writeCartridge address value)
  · rfl

theorem alike_of_untitled {α : Type} {access : Bus → α × Bus}
    (haccess : ∀ bus, access bus.untitled = untitledAfter (access bus)) {bus other : Bus}
    (hsame : bus.untitled = other.untitled) :
    (access bus).1 = (access other).1 ∧ (access bus).2.untitled = (access other).2.untitled := by
  have hanswer : untitledAfter (access bus) = untitledAfter (access other) := by
    rw [← haccess, ← haccess, hsame]
  exact Prod.ext_iff.mp hanswer

-- Buses that differ in the title of their cartridges at most cannot be told apart by a processor.
theorem lockstep_untitled :
    Execution.Lockstep (fun _ => True) fun bus other : Bus => bus.untitled = other.untitled where
  changed _ _ := trivial
  loaded address _ _ hsame := alike_of_untitled (fun bus => bus.untitled_read address) hsame
  stored address value _ _ hsame :=
    alike_of_untitled (fun bus => bus.untitled_write address value) hsame

-- States do not tell them apart either.
theorem saveState_untitled (bus : Bus) : bus.untitled.saveState = bus.saveState := by
  simp only [saveState, untitled, Option.map_map]
  rfl

end Bus

end Console816
