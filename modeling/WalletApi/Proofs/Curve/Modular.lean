import Mathlib
import WalletApi.Curve.Modular

/-!
# What modular arithmetic computes

The functions of `WalletApi.Modular` work on numbers. This file says what they are in the ring of
residues `ZMod m`, where the curve lives:

* `WalletApi.Modular.pow_eq` – repeated squaring is the power;
* `WalletApi.Modular.cast_sub` – the difference, where the second number is at most the modulus;
* `WalletApi.Modular.cast_inverse` – the inverse, for a prime modulus and including the convention
  that zero is its own inverse.

The inverse is the one that needs an argument. The Euclidean algorithm keeps beside each remainder
`r` a coefficient `t` with `t * a = r` in `ZMod m`, and a step of the algorithm takes the same
combination of the remainders and of the coefficients. At the end the remainder is the greatest
common divisor, which is one.
-/

namespace WalletApi

namespace Modular

/-! ### Powers -/

/-- **Repeated squaring computes the power.** -/
theorem pow_eq (m a n : ℕ) : pow m a n = a ^ n % m := by
  induction n using Nat.strong_induction_on generalizing a with
  | _ n ih =>
    rw [pow]
    by_cases hn : n = 0
    · rw [if_pos hn, hn, pow_zero]
    · rw [if_neg hn]
      -- The base is squared while the exponent is halved, so the induction generalizes it.
      have hhalf : pow m (a * a % m) (n / 2) = (a * a) ^ (n / 2) % m := by
        rw [ih (n / 2) (by omega), ← Nat.pow_mod]
      have hsq : (a * a) ^ (n / 2) = a ^ (2 * (n / 2)) := by rw [pow_mul, sq]
      simp only [hhalf, hsq]
      by_cases hodd : n % 2 = 1
      · rw [if_pos hodd, Nat.mod_mul_mod, ← pow_succ]
        congr 2
        omega
      · rw [if_neg hodd]
        congr 2
        omega

theorem cast_pow (m a n : ℕ) : ((pow m a n : ℕ) : ZMod m) = (a : ZMod m) ^ n := by
  rw [pow_eq, ZMod.natCast_mod, Nat.cast_pow]

/-! ### Differences -/

theorem cast_sub {m b : ℕ} (a : ℕ) (hb : b ≤ m) :
    ((sub m a b : ℕ) : ZMod m) = (a : ZMod m) - (b : ZMod m) := by
  rw [sub, ZMod.natCast_mod, Nat.cast_add, Nat.cast_sub hb, ZMod.natCast_self]
  ring

theorem sub_lt {m : ℕ} (a b : ℕ) (hm : 0 < m) : sub m a b < m := Nat.mod_lt _ hm

/-! ### Inverses -/

/-- **The invariant of the Euclidean algorithm.** Where each of two remainders is its coefficient
times `a`, so is their greatest common divisor, with the coefficient that the algorithm ends on. -/
theorem lastCoefficient_mul {m a : ℕ} (r₀ r₁ : ℕ) (t₀ t₁ : ℤ)
    (h₀ : (t₀ : ZMod m) * a = r₀) (h₁ : (t₁ : ZMod m) * a = r₁) :
    ((lastCoefficient r₀ r₁ t₀ t₁ : ℤ) : ZMod m) * a = (Nat.gcd r₀ r₁ : ℕ) := by
  induction r₁ using Nat.strong_induction_on generalizing r₀ t₀ t₁ with
  | _ r₁ ih =>
    rw [lastCoefficient]
    by_cases hr : r₁ = 0
    · rw [if_pos hr, hr, Nat.gcd_zero_right, h₀]
    · rw [if_neg hr]
      -- The new coefficient is made from the old ones as the new remainder is.
      have hstep : ((t₀ - (r₀ / r₁ : ℕ) * t₁ : ℤ) : ZMod m) * a = ((r₀ % r₁ : ℕ) : ZMod m) := by
        have hdiv : ((r₁ * (r₀ / r₁) + r₀ % r₁ : ℕ) : ZMod m) = r₀ := by rw [Nat.div_add_mod]
        rw [Nat.cast_add, Nat.cast_mul] at hdiv
        rw [Int.cast_sub, Int.cast_mul, Int.cast_natCast]
        linear_combination h₀ - ((r₀ / r₁ : ℕ) : ZMod m) * h₁ - hdiv
      have hlast := ih (r₀ % r₁) (Nat.mod_lt _ (Nat.pos_of_ne_zero hr)) r₁ t₁ _ h₁ hstep
      rw [hlast, Nat.gcd_comm r₁, ← Nat.gcd_rec, Nat.gcd_comm]

/-- The inverse is the coefficient that the Euclidean algorithm ends on. -/
theorem cast_inverse_eq_lastCoefficient {m : ℕ} (a : ℕ) (hm : 0 < m) :
    ((inverse m a : ℕ) : ZMod m) = ((lastCoefficient m (a % m) 0 1 : ℤ) : ZMod m) := by
  have hnonneg : 0 ≤ lastCoefficient m (a % m) 0 1 % (m : ℤ) :=
    Int.emod_nonneg _ (by omega)
  have hcast : ((inverse m a : ℕ) : ℤ) = lastCoefficient m (a % m) 0 1 % (m : ℤ) := by
    rw [inverse, Int.toNat_of_nonneg hnonneg]
  rw [← Int.cast_natCast (R := ZMod m), hcast]
  exact (ZMod.intCast_eq_intCast_iff _ _ m).mpr (Int.mod_modEq _ _)

theorem inverse_mul {m a : ℕ} (hm : 0 < m) (h : Nat.gcd m a = 1) :
    ((inverse m a : ℕ) : ZMod m) * a = 1 := by
  have hzero : ((0 : ℤ) : ZMod m) * a = (m : ℕ) := by simp
  have hone : ((1 : ℤ) : ZMod m) * a = (a % m : ℕ) := by simp
  have hgcd : Nat.gcd m (a % m) = 1 := by rw [Nat.gcd_comm, ← Nat.gcd_rec, h]
  rw [cast_inverse_eq_lastCoefficient a hm, lastCoefficient_mul _ _ _ _ hzero hone, hgcd,
    Nat.cast_one]

/-- **The inverse computes the inverse** of the field of residues. -/
theorem cast_inverse {p : ℕ} [hp : Fact p.Prime] (a : ℕ) :
    ((inverse p a : ℕ) : ZMod p) = (a : ZMod p)⁻¹ := by
  by_cases ha : (a : ZMod p) = 0
  · -- Zero has no inverse, and the algorithm ends before its first step.
    have hmod : a % p = 0 := Nat.mod_eq_zero_of_dvd ((ZMod.natCast_eq_zero_iff a p).mp ha)
    have hlast : lastCoefficient p 0 0 1 = 0 := by rw [lastCoefficient, if_pos rfl]
    rw [cast_inverse_eq_lastCoefficient a hp.out.pos, hmod, hlast, ha, Int.cast_zero, inv_zero]
  · have hcop : Nat.gcd p a = 1 :=
      (Nat.Prime.coprime_iff_not_dvd hp.out).mpr fun hdvd =>
        ha ((ZMod.natCast_eq_zero_iff a p).mpr hdvd)
    exact eq_inv_of_mul_eq_one_left (inverse_mul hp.out.pos hcop)

end Modular

end WalletApi
