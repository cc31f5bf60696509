import Mathlib.Data.Nat.Digits.Lemmas
import WalletApi.Auth.Payload
import WalletApi.Proofs.Text.Base58
import WalletApi.Proofs.Key.Text

/-!
# The width of a written identity

Base58 has no fixed width: the number of digits depends on the number that is written. What fixes it
for an extended key is the version in front. It is not zero, and it confines the number to so narrow
a range that all public extended keys of both networks are written with one hundred and eleven
digits (`WalletApi.Xpub.length_text`).

The public key of an access key is written with sixty-six digits in hexadecimal, the first of which
is a zero (`WalletApi.SecretKey.exists_publicText`). Base58 knows no zero, so the first character
tells one kind of identity from the other (`WalletApi.Xpub.zero_notMem_text`).
-/

namespace WalletApi

/-! ### Numbers of byte strings -/

namespace Bytes

theorem toNat_lt (bs : Bytes) : bs.toNat < 256 ^ bs.length := by
  have hlt : ∀ d ∈ (bs.map UInt8.toNat).reverse, d < 256 := by
    intro d hd
    obtain ⟨b, -, rfl⟩ := List.mem_map.mp (List.mem_reverse.mp hd)
    exact b.toNat_lt
  have hbound := Nat.ofDigits_lt_base_pow_length (by omega) hlt
  rwa [← Base58.valueIn_eq, ← Base58.toNat_eq_valueIn, List.length_reverse, List.length_map]
    at hbound

theorem toNat_append (as bs : Bytes) :
    toNat (as ++ bs) = as.toNat * 256 ^ bs.length + bs.toNat := by
  simp only [Base58.toNat_eq_valueIn, Base58.valueIn_eq, List.map_append, List.reverse_append,
    Nat.ofDigits_append, List.length_reverse, List.length_map]
  rw [Nat.add_comm, Nat.mul_comm]

end Bytes

/-! ### Writing between two powers -/

/-- A byte string that does not begin with a zero is written with as many digits as the powers of
fifty-eight around its number tell. -/
theorem Base58.length_encode {bs : Bytes} {k : ℕ} (hhead : bs.headD 0 ≠ 0)
    (hlow : 58 ^ k ≤ bs.toNat) (hhigh : bs.toNat < 58 ^ (k + 1)) :
    (Base58.encode bs).length = k + 1 := by
  have hzeros : bs.takeWhile (· == 0) = [] := by
    cases bs with
    | nil => rfl
    | cons b bs => exact List.takeWhile_cons_of_neg fun hb => hhead (eq_of_beq hb)
  have hle := (Nat.digits_length_le_iff (by omega) bs.toNat).mpr hhigh
  have hlt := (Nat.lt_digits_length_iff (by omega) bs.toNat).mpr hlow
  rw [Base58.encode_eq, List.length_map, List.length_append, hzeros, List.length_nil,
    List.replicate_zero, List.length_nil, Base58.digitsIn_eq (by omega), List.length_reverse]
  omega

/-- A byte string is written with at most as many digits as a power of fifty-eight above all byte
strings of its length has zeros. -/
theorem Base58.length_encode_le {bs : Bytes} {k : ℕ} (h : 256 ^ bs.length ≤ 58 ^ k) :
    (Base58.encode bs).length ≤ k := by
  have hsplit : (bs.takeWhile (· == 0)).length + (bs.dropWhile (· == 0)).length = bs.length := by
    rw [← List.length_append, List.takeWhile_append_dropWhile]
  have hvalue : bs.toNat < 256 ^ (bs.dropWhile (· == 0)).length := by
    rw [← Base58.toNat_dropWhile]
    exact Bytes.toNat_lt _
  rw [Base58.encode_eq, List.length_map, List.length_append, List.length_replicate,
    Base58.digitsIn_eq (by omega), List.length_reverse]
  generalize (bs.takeWhile (· == 0)).length = z at hsplit
  generalize (bs.dropWhile (· == 0)).length = rest at hsplit hvalue
  -- A leading zero takes one digit, which is less than its share of the power.
  have hbound : bs.toNat * 58 ^ z < 58 ^ k := by
    calc bs.toNat * 58 ^ z
        < 256 ^ rest * 58 ^ z := Nat.mul_lt_mul_of_pos_right hvalue (by positivity)
      _ ≤ 256 ^ rest * 256 ^ z := Nat.mul_le_mul_left _ (Nat.pow_le_pow_left (by omega) z)
      _ = 256 ^ bs.length := by rw [← pow_add, ← hsplit, Nat.add_comm]
      _ ≤ 58 ^ k := h
  have hz : z ≤ k := by
    refine (Nat.pow_le_pow_iff_right (a := 58) (by omega)).mp ?_
    calc 58 ^ z ≤ 256 ^ z := Nat.pow_le_pow_left (by omega) z
      _ ≤ 256 ^ bs.length := Nat.pow_le_pow_right (by omega) (by omega)
      _ ≤ 58 ^ k := h
  have hdigits : (Nat.digits 58 bs.toNat).length ≤ k - z := by
    refine (Nat.digits_length_le_iff (by omega) _).mpr ?_
    refine Nat.lt_of_mul_lt_mul_right (a := 58 ^ z) ?_
    rwa [← pow_add, Nat.sub_add_cancel hz]
  omega

theorem Base58.digit_ne_zero : ∀ n : Fin 58, Base58.digit n.val ≠ '0' := by decide +kernel

/-- Base58 has no digit zero. -/
theorem Base58.zero_notMem_encode (bs : Bytes) : '0' ∉ Base58.encode bs := by
  intro hmem
  obtain ⟨d, hd, hdigit⟩ := Base58.exists_digit_of_mem_encode hmem
  exact Base58.digit_ne_zero ⟨d, hd⟩ hdigit

/-! ### Public extended keys -/

namespace Xpub

theorem headD_version (network : Network) (bs : Bytes) :
    (version network ++ bs).headD 0 ≠ 0 := by
  cases network <;> exact (by decide : (4 : UInt8) ≠ 0)

/-- The versions of both networks stand between two numbers, which settle how many digits follow.
-/
theorem toNat_version (network : Network) :
    0x043587cf ≤ Bytes.toNat (version network) ∧ Bytes.toNat (version network) ≤ 0x0488b21e := by
  cases network <;> decide

/-- A version and seventy-eight bytes after it are written with one hundred and eleven digits. -/
theorem length_encode_version (network : Network) {rest : Bytes} (h : rest.length = 78) :
    (Base58.encode (version network ++ rest)).length = 111 := by
  obtain ⟨hlow, hhigh⟩ := toNat_version network
  have hrest := rest.toNat_lt
  rw [h] at hrest
  refine Base58.length_encode (headD_version _ _) ?_ ?_
  · rw [Bytes.toNat_append, h]
    calc 58 ^ 110 ≤ 0x043587cf * 256 ^ 78 := by norm_num
      _ ≤ Bytes.toNat (version network) * 256 ^ 78 := Nat.mul_le_mul_right _ hlow
      _ ≤ Bytes.toNat (version network) * 256 ^ 78 + rest.toNat := Nat.le_add_right _ _
  · rw [Bytes.toNat_append, h]
    calc Bytes.toNat (version network) * 256 ^ 78 + rest.toNat
        < Bytes.toNat (version network) * 256 ^ 78 + 256 ^ 78 := Nat.add_lt_add_left hrest _
      _ = (Bytes.toNat (version network) + 1) * 256 ^ 78 := (Nat.succ_mul _ _).symm
      _ ≤ (0x0488b21e + 1) * 256 ^ 78 := Nat.mul_le_mul_right _ (Nat.succ_le_succ hhigh)
      _ ≤ 58 ^ 111 := by norm_num

/-- **A public extended key is written with one hundred and eleven digits.** -/
theorem length_text (k : Xpub) : k.text.length = 111 := by
  rw [text, String.length_ofList, Base58.encodeChecked, List.append_assoc, List.append_assoc]
  refine length_encode_version _ ?_
  rw [List.length_append, List.length_append, k.toLineage.length_bytes, k.key.length_compressed,
    Base58.length_checksum]

theorem zero_notMem_text (k : Xpub) : '0' ∉ k.text.toList := by
  rw [text, String.toList_ofList, Base58.encodeChecked]
  exact Base58.zero_notMem_encode _

end Xpub

/-! ### Public keys of access keys -/

/-- **The public key of an access key is written with sixty-six digits, and the first one is a
zero.** -/
theorem SecretKey.exists_publicText (k : SecretKey) :
    k.publicText.length = 66 ∧ k.publicText.toList.head? = some '0' := by
  have hlen : (Hex.encode k.publicKey.compressed).length = 66 := by
    rw [Hex.length_encode, k.publicKey.length_compressed]
  have hhead : (Hex.encode k.publicKey.compressed).head? = some '0' := by
    rw [PublicKey.compressed]
    split <;> rw [Hex.encode_cons, List.head?_cons] <;> rfl
  exact ⟨by rw [publicText, String.length_ofList, hlen],
    by rw [publicText, String.toList_ofList, hhead]⟩

end WalletApi
