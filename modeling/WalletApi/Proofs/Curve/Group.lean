import WalletApi.Proofs.Curve.Primality

/-!
# The points form a group

`Point.add` follows the chord and tangent construction on numbers. Mathlib carries out the same
construction on the points of a Weierstrass curve over a field and proves that it makes an abelian
group. `Point.toGroup` reads a point as a point of that group, and the operations go along:

* `WalletApi.Point.toGroup_add`, `WalletApi.Point.toGroup_neg`, `WalletApi.Point.toGroup_smul` –
  sums, opposites and multiples are those of the group;
* `WalletApi.Point.toGroup_injective` – a point is known by its reading, so that an equation between
  points can be proved in the group.

In particular the test with which `Point.ofCoordinates` looks at the coordinates of a sum always
succeeds: the group's sum has the same coordinates, and it lies on the curve.
-/

namespace WalletApi

open WeierstrassCurve

/-- The field of coordinates. -/
abbrev Coordinate : Type := ZMod fieldPrime

/-- **The curve** `y² = x³ + 7`. -/
def secp256k1 : Affine Coordinate := ⟨0, 0, 0, 0, 7⟩

/-! ### The equation -/

theorem natCast_ne_zero {n : ℕ} (h₀ : n % fieldPrime ≠ 0) : (n : Coordinate) ≠ 0 := fun h =>
  h₀ (Nat.mod_eq_zero_of_dvd ((ZMod.natCast_eq_zero_iff n fieldPrime).mp h))

theorem discriminant_ne_zero : secp256k1.Δ ≠ 0 := by
  have h : secp256k1.Δ = -((21168 : ℕ) : Coordinate) := by
    simp only [secp256k1, WeierstrassCurve.Δ, WeierstrassCurve.b₂, WeierstrassCurve.b₄,
      WeierstrassCurve.b₆, WeierstrassCurve.b₈]
    push_cast
    ring
  rw [h]
  exact neg_ne_zero.mpr (natCast_ne_zero (by decide))

theorem equation_iff_sq {x y : Coordinate} : secp256k1.Equation x y ↔ y ^ 2 = x ^ 3 + 7 := by
  rw [Affine.equation_iff]
  simp only [secp256k1, zero_mul, add_zero]

theorem nonsingular_iff_sq {x y : Coordinate} : secp256k1.Nonsingular x y ↔ y ^ 2 = x ^ 3 + 7 := by
  rw [← Affine.equation_iff_nonsingular_of_Δ_ne_zero discriminant_ne_zero, equation_iff_sq]

/-- Two numbers below the prime solve the equation of the curve exactly when their residues do. -/
theorem onCurve_iff {x y : ℕ} (hx : x < fieldPrime) (hy : y < fieldPrime) :
    OnCurve x y ↔ secp256k1.Nonsingular (x : Coordinate) (y : Coordinate) := by
  have hcast : (((y * y : ℕ) : Coordinate) = ((x * x * x + 7 : ℕ) : Coordinate)) ↔
      (y : Coordinate) ^ 2 = (x : Coordinate) ^ 3 + 7 := by
    push_cast
    rw [sq, pow_succ, sq]
  rw [nonsingular_iff_sq, ← hcast, ZMod.natCast_eq_natCast_iff']
  exact ⟨fun h => h.2.2, fun h => ⟨hx, hy, h⟩⟩

theorem OnCurve.nonsingular {x y : ℕ} (h : OnCurve x y) :
    secp256k1.Nonsingular (x : Coordinate) (y : Coordinate) := (onCurve_iff h.1 h.2.1).mp h

/-- Numbers below the prime are known by their residues. -/
theorem eq_of_cast_eq {x y : ℕ} (hx : x < fieldPrime) (hy : y < fieldPrime)
    (h : (x : Coordinate) = (y : Coordinate)) : x = y := by
  rwa [ZMod.natCast_eq_natCast_iff', Nat.mod_eq_of_lt hx, Nat.mod_eq_of_lt hy] at h

namespace Point

/-! ### Points as group elements -/

/-- **A point as an element of the group.** -/
def toGroup : Point → secp256k1.Point
  | infinity => 0
  | affine _ _ h => .some _ _ h.nonsingular

@[simp] theorem toGroup_infinity : toGroup infinity = 0 := rfl

theorem toGroup_affine {x y : ℕ} (h : OnCurve x y) :
    toGroup (affine x y h) = .some _ _ h.nonsingular := rfl

/-- **A point is known by its reading.** -/
theorem toGroup_injective : Function.Injective toGroup := by
  intro p q h
  cases p with
  | infinity =>
    cases q with
    | infinity => rfl
    | affine x y hq => exact absurd h.symm (Affine.Point.some_ne_zero hq.nonsingular)
  | affine x y hp =>
    cases q with
    | infinity => exact absurd h (Affine.Point.some_ne_zero hp.nonsingular)
    | affine x' y' hq =>
      obtain ⟨hx, hy⟩ := (Affine.Point.some.injEq ..).mp h
      obtain rfl : x = x' := eq_of_cast_eq hp.1 hq.1 hx
      obtain rfl : y = y' := eq_of_cast_eq hp.2.1 hq.2.1 hy
      rfl

theorem toGroup_eq_zero_iff {p : Point} : p.toGroup = 0 ↔ p = infinity :=
  ⟨fun h => toGroup_injective (h.trans toGroup_infinity.symm), fun h => h ▸ toGroup_infinity⟩

/-- Coordinates below the prime whose residues lie on the curve make the point with these residues.
-/
theorem toGroup_ofCoordinates {x y : ℕ} (hx : x < fieldPrime) (hy : y < fieldPrime)
    {a b : Coordinate} (h : secp256k1.Nonsingular a b) (ha : (x : Coordinate) = a)
    (hb : (y : Coordinate) = b) : toGroup (ofCoordinates x y) = .some a b h := by
  subst ha hb
  have hon : OnCurve x y := (onCurve_iff hx hy).mpr h
  rw [ofCoordinates, dif_pos hon, toGroup_affine]

theorem pos_fieldPrime : 0 < fieldPrime := by decide

/-- The opposite of a number below the prime has the opposite residue. -/
theorem cast_opposite {y : ℕ} (hy : y < fieldPrime) :
    (((fieldPrime - y) % fieldPrime : ℕ) : Coordinate) = -(y : Coordinate) := by
  rw [ZMod.natCast_mod, Nat.cast_sub hy.le, ZMod.natCast_self, zero_sub]

/-! ### Sums -/

/-- The third point on a line has the coordinates that the group gives the sum. -/
theorem toGroup_thirdPoint {m x₁ y₁ x₂ : ℕ} (h₁ : y₁ < fieldPrime) {ℓ : Coordinate}
    (hm : (m : Coordinate) = ℓ)
    (h : secp256k1.Nonsingular (secp256k1.addX x₁ x₂ ℓ) (secp256k1.addY x₁ x₂ y₁ ℓ)) :
    toGroup (thirdPoint m x₁ y₁ x₂) = .some _ _ h := by
  subst hm
  have hx : ((Modular.sub fieldPrime (m * m) ((x₁ + x₂) % fieldPrime) : ℕ) : Coordinate) =
      secp256k1.addX x₁ x₂ m := by
    rw [Modular.cast_sub _ (Nat.mod_lt _ pos_fieldPrime).le, ZMod.natCast_mod]
    simp only [Affine.addX, secp256k1]
    push_cast
    ring
  refine toGroup_ofCoordinates (Modular.sub_lt _ _ pos_fieldPrime)
    (Modular.sub_lt _ _ pos_fieldPrime) h hx ?_
  have hx₃ := (Modular.sub_lt (m * m) ((x₁ + x₂) % fieldPrime) pos_fieldPrime).le
  rw [Modular.cast_sub _ h₁.le, Nat.cast_mul, Modular.cast_sub _ hx₃, hx]
  simp only [Affine.addY, Affine.negAddY, Affine.negY, secp256k1]
  ring

/-- The slope of the tangent. -/
theorem cast_tangent {x y : ℕ} (hy : (y : Coordinate) ≠ secp256k1.negY x y) :
    ((3 * x * x * Modular.inverse fieldPrime (2 * y) % fieldPrime : ℕ) : Coordinate) =
      secp256k1.slope x x y y := by
  rw [ZMod.natCast_mod, Nat.cast_mul, Modular.cast_inverse, Affine.slope_of_Y_ne rfl hy]
  simp only [secp256k1, Affine.negY, div_eq_mul_inv]
  push_cast
  ring

/-- The slope of the chord. -/
theorem cast_chord {x₁ y₁ x₂ y₂ : ℕ} (hx₁ : x₁ < fieldPrime) (hy₁ : y₁ < fieldPrime)
    (hne : (x₁ : Coordinate) ≠ x₂) :
    ((Modular.sub fieldPrime y₂ y₁
        * Modular.inverse fieldPrime (Modular.sub fieldPrime x₂ x₁) % fieldPrime : ℕ) : Coordinate)
      = secp256k1.slope x₁ x₂ y₁ y₂ := by
  rw [ZMod.natCast_mod, Nat.cast_mul, Modular.cast_inverse, Modular.cast_sub _ hx₁.le,
    Modular.cast_sub _ hy₁.le, Affine.slope_of_X_ne hne, ← neg_sub (y₁ : Coordinate),
    ← neg_sub (x₁ : Coordinate), ← div_eq_mul_inv, neg_div_neg_eq]

/-- Points over one abscissa are opposite exactly when their ordinates add up to zero. -/
theorem add_mod_eq_zero_iff (x y₁ y₂ : ℕ) :
    (y₁ + y₂) % fieldPrime = 0 ↔ (y₁ : Coordinate) = secp256k1.negY x y₂ := by
  rw [← Nat.dvd_iff_mod_eq_zero, ← ZMod.natCast_eq_zero_iff, Nat.cast_add,
    add_eq_zero_iff_eq_neg]
  simp only [Affine.negY, secp256k1, zero_mul, sub_zero]

/-- **The sum of points is the sum of the group.** -/
theorem toGroup_add (p q : Point) : (p.add q).toGroup = p.toGroup + q.toGroup := by
  cases p with
  | infinity => rw [add, toGroup_infinity, zero_add]
  | affine x₁ y₁ h₁ =>
    cases q with
    | infinity => exact (add_zero _).symm
    | affine x₂ y₂ h₂ =>
      rw [add, toGroup_affine, toGroup_affine]
      by_cases hx : x₁ = x₂
      · subst hx
        rw [if_pos rfl]
        by_cases hy : (y₁ + y₂) % fieldPrime = 0
        · have hneg := (add_mod_eq_zero_iff x₁ y₁ y₂).mp hy
          rw [if_pos hy, toGroup_infinity, Affine.Point.add_of_Y_eq rfl hneg]
        · have hneg := fun h => hy ((add_mod_eq_zero_iff x₁ y₁ y₂).mpr h)
          -- Points over one abscissa that are not opposite are equal, so the line is the tangent.
          have hyy : (y₁ : Coordinate) = y₂ :=
            Affine.Y_eq_of_Y_ne h₁.nonsingular.1 h₂.nonsingular.1 rfl hneg
          obtain rfl : y₁ = y₂ := eq_of_cast_eq h₁.2.1 h₂.2.1 hyy
          rw [if_neg hy, Affine.Point.add_of_Y_ne hneg]
          exact toGroup_thirdPoint h₁.2.1 (cast_tangent hneg) _
      · have hne : (x₁ : Coordinate) ≠ x₂ := fun h => hx (eq_of_cast_eq h₁.1 h₂.1 h)
        rw [if_neg hx, Affine.Point.add_of_X_ne hne]
        exact toGroup_thirdPoint h₁.2.1 (cast_chord h₁.1 h₁.2.1 hne) _

/-! ### Opposites and multiples -/

/-- **The opposite of a point is the opposite of the group.** -/
theorem toGroup_neg (p : Point) : p.neg.toGroup = -p.toGroup := by
  cases p with
  | infinity => exact neg_zero.symm
  | affine x y h =>
    rw [neg, toGroup_affine, Affine.Point.neg_some]
    refine toGroup_ofCoordinates h.1 (Nat.mod_lt _ pos_fieldPrime) _ rfl ?_
    rw [cast_opposite h.2.1]
    simp only [Affine.negY, secp256k1]
    ring

/-- **Repeated doubling computes the multiple of the group.** -/
theorem toGroup_smul (n : ℕ) (p : Point) : (smul n p).toGroup = n • p.toGroup := by
  induction n using Nat.strong_induction_on generalizing p with
  | _ n ih =>
    rw [smul]
    by_cases hn : n = 0
    · rw [if_pos hn, hn, toGroup_infinity, zero_nsmul]
    · -- Half of the multiple is taken of the doubled point.
      have hhalf : (smul (n / 2) (p.add p)).toGroup = (2 * (n / 2)) • p.toGroup := by
        rw [ih (n / 2) (by omega), toGroup_add, ← two_nsmul, smul_smul, mul_comm]
      rw [if_neg hn]
      by_cases hodd : n % 2 = 1
      · simp only [if_pos hodd, toGroup_add, hhalf]
        rw [← succ_nsmul]
        congr 1
        omega
      · simp only [if_neg hodd, hhalf]
        congr 1
        omega

end Point

end WalletApi
