import Console816.Proofs.Json.Common
import Console816.State.Document

namespace Console816

open Json

-- Each part of a state is written as a document that reads as that part.

theorem Registers.ofJson?_toJson (r : Registers) : ofJson? r.toJson = some r := by
  rw [ofJson?, toJson, fields?_record]
  · simp [uint16?_nat, uint8?_ofByte, bool?]
  · rfl
  · decide

theorem InterruptState.ofJson?_toJson (state : InterruptState) :
    ofJson? state.toJson = some state := by
  rw [ofJson?, toJson, fields?_record]
  · simp [uint8?_ofByte, bool?]
  · rfl
  · decide

theorem ProcessorState.ofJson?_toJson (state : ProcessorState) :
    ofJson? state.toJson = some state := by
  rw [ofJson?, toJson, fields?_record]
  · simp [Registers.ofJson?_toJson, InterruptState.ofJson?_toJson, uint64?_nat]
  · rfl
  · decide

theorem WorkRam.ofJson?_toJson (ram : WorkRam) : ofJson? ram.toJson = some ram := by
  rw [ofJson?, toJson, fields?_record]
  · simp [byteArray?_ofByteArray, uint32?_nat]
  · rfl
  · decide

theorem DmaChannel.ofJson?_toJson (channel : DmaChannel) :
    ofJson? channel.toJson = some channel := by
  rw [ofJson?, toJson, fields?_record]
  · simp [vector?_ofVector uint8?_ofByte]
  · rfl
  · decide

theorem IoRegisters.ofJson?_toJson (io : IoRegisters) : ofJson? io.toJson = some io := by
  rw [ofJson?, toJson, fields?_record]
  · simp [uint8?_ofByte, uint16?_nat, bool?, vector?_ofVector DmaChannel.ofJson?_toJson]
  · rfl
  · decide

theorem BusState.ofJson?_toJson (state : BusState) : ofJson? state.toJson = some state := by
  rw [ofJson?, toJson, fields?_record]
  · have hsram := option?_ofOption byteArray?_ofByteArray (fun _ => nofun) state.sram
    simp [uint8?_ofByte, WorkRam.ofJson?_toJson, IoRegisters.ofJson?_toJson,
      byteArray?_ofByteArray, hsram]
  · rfl
  · decide

theorem ConsoleState.ofJson?_toJson (state : ConsoleState) : ofJson? state.toJson = some state := by
  rw [ofJson?, toJson, fields?_record]
  · simp [ProcessorState.ofJson?_toJson, BusState.ofJson?_toJson]
  · rfl
  · decide

-- Each document is one that every printer and reader agree on.

theorem Registers.common_toJson (r : Registers) : r.toJson.Common := by
  refine .record ?_ ?_ ?_
  · simp only [List.forall_mem_cons]
    decide
  · simp
  · simp [common_uint16, common_ofByte, Common.bool]

theorem InterruptState.common_toJson (state : InterruptState) : state.toJson.Common := by
  refine .record ?_ ?_ ?_
  · simp only [List.forall_mem_cons]
    decide
  · simp
  · simp [common_ofByte, Common.bool]

theorem ProcessorState.common_toJson (state : ProcessorState) : state.toJson.Common := by
  refine .record ?_ ?_ ?_
  · simp only [List.forall_mem_cons]
    decide
  · simp
  · simp [state.registers.common_toJson, state.interrupts.common_toJson, common_uint64]

theorem WorkRam.common_toJson (ram : WorkRam) : ram.toJson.Common := by
  refine .record ?_ ?_ ?_
  · simp only [List.forall_mem_cons]
    decide
  · simp
  · simp [common_ofByteArray, common_uint32]

theorem DmaChannel.common_toJson (channel : DmaChannel) : channel.toJson.Common := by
  refine .record ?_ ?_ ?_
  · simp only [List.forall_mem_cons]
    decide
  · simp
  · simp [common_ofVector common_ofByte]

theorem IoRegisters.common_toJson (io : IoRegisters) : io.toJson.Common := by
  refine .record ?_ ?_ ?_
  · simp only [List.forall_mem_cons]
    decide
  · simp
  · simp [common_ofVector DmaChannel.common_toJson, common_ofByte, common_uint16, Common.bool]

theorem BusState.common_toJson (state : BusState) : state.toJson.Common := by
  refine .record ?_ ?_ ?_
  · simp only [List.forall_mem_cons]
    decide
  · simp
  · simp [state.workRam.common_toJson, state.io.common_toJson, common_ofByte, common_ofByteArray,
      common_ofOption common_ofByteArray]

theorem ConsoleState.common_toJson (state : ConsoleState) : state.toJson.Common := by
  refine .record ?_ ?_ ?_
  · simp only [List.forall_mem_cons]
    decide
  · simp
  · simp [state.processor.common_toJson, state.bus.common_toJson]

end Console816
