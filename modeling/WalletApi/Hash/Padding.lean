import WalletApi.Bytes

/-!
# Messages cut into blocks

A hash function works on blocks of one size. A message is filled up to whole blocks with one set
bit, zeros and its own length in bits, and is then cut.
-/

namespace WalletApi.Padding

/-- Cuts a byte string into groups of `size` bytes; what is left over at the end makes a shorter
group. -/
def groups (size : Nat) (bs : Bytes) : List Bytes :=
  if _h : bs = [] ∨ size = 0 then [] else bs.take size :: groups size (bs.drop size)
termination_by bs.length
decreasing_by
  have : bs.length ≠ 0 := by simp_all
  simp only [List.length_drop]
  omega

/-- The zeros that follow the set bit, so that the length field ends a block. -/
def zeros (block lengthField n : Nat) : Nat := (block - (n + 1 + lengthField) % block) % block

/-- A message with the set bit, zeros and a length field of `lengthField` bytes, most significant
byte first. -/
def pad (block lengthField : Nat) (message : Bytes) : Bytes :=
  message ++ 0x80 :: (List.replicate (zeros block lengthField message.length) 0
    ++ Bytes.ofNat lengthField (8 * message.length))

/-- A padded message is made of whole blocks. -/
theorem length_pad_mod {block : Nat} (lengthField : Nat) (message : Bytes) (h : 0 < block) :
    (pad block lengthField message).length % block = 0 := by
  have hlt := Nat.mod_lt (message.length + 1 + lengthField) h
  have hlen : (pad block lengthField message).length
      = (message.length + 1 + lengthField) + zeros block lengthField message.length := by
    simp [pad]; omega
  rw [hlen, Nat.add_mod, zeros]
  generalize (message.length + 1 + lengthField) % block = r at hlt
  by_cases hr : r = 0
  · simp [hr]
  · rw [Nat.mod_mod, Nat.mod_eq_of_lt (by omega : block - r < block),
      show r + (block - r) = block by omega, Nat.mod_self]

end WalletApi.Padding
