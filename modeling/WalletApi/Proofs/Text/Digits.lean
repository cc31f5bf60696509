import Mathlib.Algebra.Group.Nat.Defs

/-!
# Decimal digits

A number is written with its decimal digits, highest first, and no zero in front. Read
one by one its digits make the number again (`WalletApi.Decimal.foldl_toDigits`). As many digits
write a number below that power of ten (`WalletApi.Decimal.foldl_lt`), and the only number whose
first digit is a zero is zero (`WalletApi.Decimal.exists_digitValues`).
-/

namespace WalletApi.Decimal

/-! ### Digits and numbers -/

theorem isDigit_of_mem_toDigits {n : ℕ} {c : Char} (hc : c ∈ Nat.toDigits 10 n) :
    c.isDigit = true :=
  Nat.isDigit_of_mem_toDigits (by decide) (by decide) hc

/-- Reading digits one by one is what the library does. -/
theorem foldl_eq_ofDigitChars (cs : List Char) (n : ℕ) :
    cs.foldl (fun n c => n * 10 + (c.toNat - 48)) n = Nat.ofDigitChars 10 cs n := by
  rw [Nat.ofDigitChars_eq_foldl]
  congr 1
  funext m c
  rw [Nat.mul_comm]
  rfl

theorem foldl_toDigits (n : ℕ) :
    (Nat.toDigits 10 n).foldl (fun n c => n * 10 + (c.toNat - 48)) 0 = n := by
  rw [foldl_eq_ofDigitChars, Nat.ofDigitChars_ten_toDigits]

/-- As many digits write a number below that power of ten, after those that were read before. -/
theorem foldl_lt {cs : List Char} (h : ∀ c ∈ cs, c.isDigit = true) (n : ℕ) :
    cs.foldl (fun n c => n * 10 + (c.toNat - 48)) n < (n + 1) * 10 ^ cs.length := by
  induction cs generalizing n with
  | nil =>
    rw [List.foldl_nil, List.length_nil, Nat.pow_zero, Nat.mul_one]
    exact Nat.lt_succ_self n
  | cons c cs ih =>
    have hc : c.toNat ≤ 57 := (Char.isDigit_iff_toNat.mp (h c List.mem_cons_self)).2
    have hle : n * 10 + (c.toNat - 48) + 1 ≤ (n + 1) * 10 := by omega
    refine Nat.lt_of_lt_of_le (ih (fun d hd => h d (List.mem_cons_of_mem c hd)) _) ?_
    rw [List.length_cons, Nat.pow_succ, Nat.mul_comm (10 ^ cs.length), ← Nat.mul_assoc]
    exact Nat.mul_le_mul_right _ hle

/-- The digits of a number as numbers. -/
def digitValues (n : ℕ) : List ℕ := (Nat.toDigits 10 n).map fun c => c.toNat - 48

theorem foldl_digitValues (n : ℕ) : (digitValues n).foldl (fun n d => n * 10 + d) 0 = n := by
  rw [digitValues, List.foldl_map, foldl_toDigits]

/-- The first digit of a number is a zero only if it is the only one. -/
theorem exists_digitValues (n : ℕ) : ∃ d ds, digitValues n = d :: ds ∧ (d = 0 → ds = []) := by
  rcases Nat.lt_or_ge n 10 with hlt | hge
  · refine ⟨n.digitChar.toNat - 48, [], ?_, fun _ => rfl⟩
    rw [digitValues, Nat.toDigits_of_lt_base hlt]
    rfl
  · obtain ⟨d, ds, hds, hzero⟩ := exists_digitValues (n / 10)
    refine ⟨d, ds ++ [n % 10], ?_, fun hd => ?_⟩
    · have hlast : ((n % 10).digitChar).toNat - 48 = n % 10 := by
        rw [Nat.toNat_digitChar_of_lt_ten (Nat.mod_lt n (by decide))]
        omega
      rw [digitValues] at hds
      rw [digitValues, Nat.toDigits_of_base_le (by decide) hge, List.map_append, hds,
        List.map_singleton, hlast, List.cons_append]
    · -- A number whose only digit is zero is zero, and this one is at least ten.
      subst hd
      have hfold := foldl_digitValues (n / 10)
      rw [hds, hzero rfl] at hfold
      have hpos : n / 10 = 0 := hfold.symm
      omega

end WalletApi.Decimal
