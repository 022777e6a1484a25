namespace Console816

-- Memory before anything is written to it.
def zeroBytes (count : Nat) : ByteArray := ⟨Array.replicate count 0⟩

instance instDecidableEqBytes : DecidableEq ByteArray := fun a b =>
  decidable_of_iff (a.data = b.data) ByteArray.ext_iff.symm

end Console816
