import Console816.Instruction.Matrix

namespace Console816.OpcodeTable

-- What holds of every row of the matrix holds of every operation of the standard table.
theorem row_of_standard {opcode : UInt8} {operation : Operation}
    (hget : standard.get? opcode = some operation) :
    operation.opcode = opcode ∧
      (operation.mnemonic, operation.mode, operation.cycles) ∈ matrix.toList := by
  simp only [standard, Option.map_eq_some_iff] at hget
  obtain ⟨row, hrow, rfl⟩ := hget
  exact ⟨rfl, Array.mem_toList_iff.mpr (Array.mem_of_getElem? hrow)⟩

theorem size_matrix : matrix.size = 0x100 := by
  decide +kernel

-- No opcode is left out.
theorem exists_of_standard (opcode : UInt8) :
    ∃ operation, standard.get? opcode = some operation := by
  have hlt : opcode.toNat < matrix.size := by
    rw [size_matrix]
    exact opcode.toNat_lt
  have hrow := Array.getElem?_eq_getElem hlt
  simp only [standard, hrow, Option.map_some, Option.some.injEq, exists_eq']

end Console816.OpcodeTable
