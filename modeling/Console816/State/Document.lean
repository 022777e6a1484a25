import Console816.Console
import Console816.Json.Record

namespace Console816

-- Saved states as JSON documents.

namespace Registers

def toJson (r : Registers) : Json :=
  Json.record [
    ("a", .nat r.a.toNat),
    ("x", .nat r.x.toNat),
    ("y", .nat r.y.toNat),
    ("s", .nat r.s.toNat),
    ("d", .nat r.d.toNat),
    ("dbr", .ofByte r.dbr),
    ("k", .ofByte r.k),
    ("pc", .nat r.pc.toNat),
    ("p", .ofByte r.p.byte),
    ("emulation", .bool r.emulation)]

def ofJson? (document : Json) : Option Registers := do
  match ← document.fields? ["a", "x", "y", "s", "d", "dbr", "k", "pc", "p", "emulation"] false with
  | [some a, some x, some y, some s, some d, some dbr, some k, some pc, some p, some emulation] =>
    return {
      a := ← a.uint16?
      x := ← x.uint16?
      y := ← y.uint16?
      s := ← s.uint16?
      d := ← d.uint16?
      dbr := ← dbr.uint8?
      k := ← k.uint8?
      pc := ← pc.uint16?
      p := ⟨← p.uint8?⟩
      emulation := ← emulation.bool? }
  | _ => none

end Registers

namespace InterruptState

def toJson (state : InterruptState) : Json :=
  Json.record [
    ("pending", .ofByte state.pending),
    ("wait", .bool state.waiting),
    ("stopped", .bool state.stopped)]

def ofJson? (document : Json) : Option InterruptState := do
  match ← document.fields? ["pending", "wait", "stopped"] false with
  | [some pending, some waiting, some stopped] =>
    return ⟨← pending.uint8?, ← waiting.bool?, ← stopped.bool?⟩
  | _ => none

end InterruptState

namespace ProcessorState

def toJson (state : ProcessorState) : Json :=
  Json.record [
    ("regs", state.registers.toJson),
    ("interrupts", state.interrupts.toJson),
    ("cycles", .nat state.cycles.toNat)]

def ofJson? (document : Json) : Option ProcessorState := do
  match ← document.fields? ["regs", "interrupts", "cycles"] false with
  | [some registers, some interrupts, some cycles] =>
    return ⟨← Registers.ofJson? registers, ← InterruptState.ofJson? interrupts, ← cycles.uint64?⟩
  | _ => none

end ProcessorState

namespace WorkRam

def toJson (ram : WorkRam) : Json :=
  Json.record [("data", .ofByteArray ram.data), ("port", .nat ram.cursor.toNat)]

def ofJson? (document : Json) : Option WorkRam := do
  match ← document.fields? ["data", "port"] false with
  | [some data, some cursor] => return ⟨← data.byteArray?, ← cursor.uint32?⟩
  | _ => none

end WorkRam

namespace DmaChannel

def toJson (channel : DmaChannel) : Json :=
  Json.record [("regs", .ofVector .ofByte channel.registers)]

def ofJson? (document : Json) : Option DmaChannel := do
  match ← document.fields? ["regs"] false with
  | [some registers] => return ⟨← registers.vector? 16 Json.uint8?⟩
  | _ => none

end DmaChannel

namespace IoRegisters

def toJson (io : IoRegisters) : Json :=
  Json.record [
    ("nmitimen", .ofByte io.nmiControl),
    ("nmi_flag", .bool io.nmiFlag),
    ("wrmpya", .ofByte io.multiplicand),
    ("wrdiv", .nat io.dividend.toNat),
    ("rddiv", .nat io.quotient.toNat),
    ("rdmpy", .nat io.product.toNat),
    ("channels", .ofVector DmaChannel.toJson io.channels)]

def ofJson? (document : Json) : Option IoRegisters := do
  match ← document.fields?
      ["nmitimen", "nmi_flag", "wrmpya", "wrdiv", "rddiv", "rdmpy", "channels"] false with
  | [some nmiControl, some nmiFlag, some multiplicand, some dividend, some quotient, some product,
      some channels] =>
    return {
      nmiControl := ← nmiControl.uint8?
      nmiFlag := ← nmiFlag.bool?
      multiplicand := ← multiplicand.uint8?
      dividend := ← dividend.uint16?
      quotient := ← quotient.uint16?
      product := ← product.uint16?
      channels := ← channels.vector? 8 DmaChannel.ofJson? }
  | _ => none

end IoRegisters

namespace BusState

def toJson (state : BusState) : Json :=
  Json.record [
    ("mdr", .ofByte state.latch),
    ("wram", state.workRam.toJson),
    ("io", state.io.toJson),
    ("b_regs", .ofByteArray state.bRegisters),
    ("sram", .ofOption .ofByteArray state.sram)]

def ofJson? (document : Json) : Option BusState := do
  match ← document.fields? ["mdr", "wram", "io", "b_regs", "sram"] false with
  | [some latch, some workRam, some io, some bRegisters, sram] =>
    return {
      latch := ← latch.uint8?
      workRam := ← WorkRam.ofJson? workRam
      io := ← IoRegisters.ofJson? io
      bRegisters := ← bRegisters.byteArray?
      sram := ← Json.option? Json.byteArray? sram }
  | _ => none

end BusState

namespace ConsoleState

def toJson (state : ConsoleState) : Json :=
  Json.record [("cpu", state.processor.toJson), ("bus", state.bus.toJson)]

def ofJson? (document : Json) : Option ConsoleState := do
  match ← document.fields? ["cpu", "bus"] false with
  | [some processor, some bus] =>
    return ⟨← ProcessorState.ofJson? processor, ← BusState.ofJson? bus⟩
  | _ => none

end ConsoleState

end Console816
