/-!
# Arithmetic modulo a number

Powers and inverses of remainders. The inverse comes from the extended Euclidean algorithm, which
follows the remainders of two numbers down to zero and keeps, beside each remainder, how often the
second number enters it.
-/

namespace WalletApi.Modular

/-- `a ^ n` modulo `m`, by repeated squaring. -/
def pow (m a n : Nat) : Nat :=
  if n = 0 then 1 % m
  else
    let h := pow m (a * a % m) (n / 2)
    if n % 2 = 1 then h * a % m else h
termination_by n
decreasing_by omega

/-- The coefficient of the second number in the last remainder that is not zero, from two
neighbouring remainders and their coefficients. -/
def lastCoefficient (r₀ r₁ : Nat) (t₀ t₁ : Int) : Int :=
  if r₁ = 0 then t₀
  else lastCoefficient r₁ (r₀ % r₁) t₁ (t₀ - (r₀ / r₁ : Nat) * t₁)
termination_by r₁
decreasing_by exact Nat.mod_lt _ (by omega)

/-- The inverse of `a` modulo `m`, where `a` has no divisor in common with `m`. -/
def inverse (m a : Nat) : Nat := (lastCoefficient m (a % m) 0 1 % (m : Int)).toNat

/-- `a - b` modulo `m`, for `b` below `m`. -/
def sub (m a b : Nat) : Nat := (a + (m - b)) % m

end WalletApi.Modular
