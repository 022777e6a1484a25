namespace Console816.Word

-- Sixteen-bit words and the two bytes they are made of.
def join (low high : UInt8) : UInt16 := (high.toUInt16 <<< 8) ||| low.toUInt16

def low (word : UInt16) : UInt8 := word.toUInt8

def high (word : UInt16) : UInt8 := (word >>> 8).toUInt8

theorem toNat_sub_one {word : UInt16} (hne : word ≠ 0) : (word - 1).toNat + 1 = word.toNat := by
  have hpos : word.toNat ≠ 0 := fun hzero => hne (UInt16.toNat_inj.mp hzero)
  have hlt := word.toNat_lt
  have hone : (1 : UInt16).toNat = 1 := rfl
  rw [UInt16.toNat_sub, hone]
  omega

end Console816.Word
