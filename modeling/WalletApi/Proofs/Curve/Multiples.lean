import WalletApi.Proofs.Curve.Group

/-!
# Multiples without inverses

`Point.smul` takes an inverse of the field for every sum of points, and this makes a multiple slow
to evaluate in a proof. Three numbers `(X, Y, Z)` that stand for the point `(X / Z², Y / Z³)`, and
for infinity where `Z` is zero, put all inverses off to the end. This file doubles and adds points
in this form, with the formulas that Mathlib proves right over any field:

* `WalletApi.Triple.represents_multiple` – the multiple that `Triple.multiple` finds is the multiple
  of the group;
* `WalletApi.Point.smul_eq_infinity_iff`, `WalletApi.Point.exists_smul_eq_affine` – so a multiple is
  infinity exactly when the last number is zero, and where it is not, one inverse each gives the
  abscissa and the ordinate.
-/

namespace WalletApi

open WeierstrassCurve WeierstrassCurve.Jacobian

/-- **Three numbers that stand for a point**, for infinity where the last is zero. -/
structure Triple where
  x : ℕ
  y : ℕ
  z : ℕ

namespace Triple

def double (t : Triple) : Triple where
  x := Modular.sub fieldPrime (9 * t.x ^ 4) (8 * t.x * t.y ^ 2 % fieldPrime)
  y := Modular.sub fieldPrime (36 * t.x ^ 3 * t.y ^ 2) ((27 * t.x ^ 6 + 8 * t.y ^ 4) % fieldPrime)
  z := 2 * t.y * t.z % fieldPrime

/-- The three numbers stand for the point of two coordinates. -/
def Meets (t : Triple) (a b : ℕ) : Prop :=
  t.x % fieldPrime = a * t.z ^ 2 % fieldPrime ∧ t.y % fieldPrime = b * t.z ^ 3 % fieldPrime

instance (t : Triple) (a b : ℕ) : Decidable (t.Meets a b) := by unfold Meets; infer_instance

/-- The third point on the line through a point and another one of two coordinates, turned over. -/
def chord (t : Triple) (a b : ℕ) : Triple where
  x := Modular.sub fieldPrime (t.x * a ^ 2 * t.z ^ 2 + t.x ^ 2 * a + 14 * t.z ^ 4)
    (2 * t.y * b * t.z % fieldPrime)
  y := Modular.sub fieldPrime
    (t.y * a ^ 3 * t.z ^ 3 + 3 * t.x ^ 2 * a * b * t.z ^ 2 + 2 * t.y ^ 2 * b + 14 * b * t.z ^ 6)
    ((2 * t.y * b ^ 2 * t.z ^ 3 + 3 * t.x * t.y * a ^ 2 * t.z + t.x ^ 3 * b + 14 * t.y * t.z ^ 3)
      % fieldPrime)
  z := Modular.sub fieldPrime t.x (a * t.z ^ 2 % fieldPrime)

/-- The sum with the point of two coordinates. -/
def add (t : Triple) (a b : ℕ) : Triple := if t.Meets a b then t.double else t.chord a b

/-- The sum of `n` copies of the point of two coordinates. -/
def multiple (a b n : ℕ) : Triple :=
  if n = 0 then ⟨1, 1, 0⟩
  else
    let half := (multiple a b (n / 2)).double
    if n % 2 = 1 then half.add a b else half
termination_by n
decreasing_by omega

/-! ### Triples as representatives of points -/

/-- The residues of the three numbers. -/
def residues (t : Triple) : Fin 3 → Coordinate := ![t.x, t.y, t.z]

/-- The residues represent an element of the group. -/
structure Represents (t : Triple) (g : secp256k1.Point) : Prop where
  nonsingular : secp256k1.toJacobian.Nonsingular t.residues
  toAffine : Point.toAffine secp256k1.toJacobian t.residues = g

/-- The difference of two numbers, the second of which is reduced, has the difference as residue. -/
theorem cast_sub_mod (a b : ℕ) :
    ((Modular.sub fieldPrime a (b % fieldPrime) : ℕ) : Coordinate) = (a : Coordinate) - b := by
  rw [Modular.cast_sub _ (Nat.mod_lt _ Point.pos_fieldPrime).le, ZMod.natCast_mod]

theorem residues_double (t : Triple) :
    t.double.residues = secp256k1.toJacobian.dblXYZ t.residues := by
  have hx : (t.double.x : Coordinate) = secp256k1.toJacobian.dblX t.residues := by
    rw [double, cast_sub_mod]
    simp only [dblX, dblU_eq, negY, residues, fin3_def_ext, secp256k1]
    push_cast
    ring
  have hy : (t.double.y : Coordinate) = secp256k1.toJacobian.dblY t.residues := by
    rw [double, cast_sub_mod]
    simp only [dblY, negDblY, dblX, dblU_eq, negY, residues, fin3_def_ext, secp256k1]
    push_cast
    ring
  have hz : (t.double.z : Coordinate) = secp256k1.toJacobian.dblZ t.residues := by
    rw [double, ZMod.natCast_mod]
    simp only [dblZ, negY, residues, fin3_def_ext, secp256k1]
    push_cast
    ring
  rw [residues, dblXYZ, hx, hy, hz]

theorem residues_chord (t : Triple) (a b : ℕ) :
    (t.chord a b).residues = secp256k1.toJacobian.addXYZ t.residues ![a, b, 1] := by
  have hx : ((t.chord a b).x : Coordinate) = secp256k1.toJacobian.addX t.residues ![a, b, 1] := by
    rw [chord, cast_sub_mod]
    simp only [addX, residues, fin3_def_ext, secp256k1]
    push_cast
    ring
  have hy : ((t.chord a b).y : Coordinate) = secp256k1.toJacobian.addY t.residues ![a, b, 1] := by
    rw [chord, cast_sub_mod]
    simp only [addY, negAddY, negY, residues, fin3_def_ext, secp256k1]
    push_cast
    ring
  have hz : ((t.chord a b).z : Coordinate) = addZ t.residues ![a, b, 1] := by
    rw [chord, cast_sub_mod]
    simp only [addZ, residues, fin3_def_ext]
    push_cast
    ring
  rw [residues, addXYZ, hx, hy, hz]

theorem meets_iff (t : Triple) (a b : ℕ) :
    t.Meets a b ↔ (t.x : Coordinate) = a * t.z ^ 2 ∧ (t.y : Coordinate) = b * t.z ^ 3 := by
  rw [Meets, ← ZMod.natCast_eq_natCast_iff', ← ZMod.natCast_eq_natCast_iff']
  push_cast
  rfl

/-- A triple meets a point of the curve exactly when both represent the same. -/
theorem meets_iff_equiv {t : Triple} (ht : secp256k1.toJacobian.Nonsingular t.residues) (a b : ℕ) :
    t.Meets a b ↔ t.residues ≈ ![(a : Coordinate), b, 1] := by
  rw [meets_iff]
  constructor
  · rintro ⟨hx, hy⟩
    -- A triple that ends in zero stands for infinity, and then its first number is not zero.
    have hz : t.residues 2 ≠ 0 := by
      intro hz
      have hzero : (t.z : Coordinate) = 0 := hz
      refine (isUnit_X_of_Z_eq_zero ht hz).ne_zero ?_
      rw [hzero] at hx
      exact hx.trans (by ring)
    exact equiv_of_X_eq_of_Y_eq hz one_ne_zero (by simpa [residues] using hx)
      (by simpa [residues] using hy)
  · intro h
    have hx := X_eq_of_equiv h
    have hy := Y_eq_of_equiv h
    exact ⟨by simpa [residues] using hx, by simpa [residues] using hy⟩

theorem residues_add {t : Triple} (ht : secp256k1.toJacobian.Nonsingular t.residues) (a b : ℕ) :
    (t.add a b).residues = secp256k1.toJacobian.add t.residues ![a, b, 1] := by
  rw [add]
  by_cases h : t.Meets a b
  · rw [if_pos h, residues_double, add_of_equiv ((meets_iff_equiv ht a b).mp h)]
  · rw [if_neg h, residues_chord, add_of_not_equiv (mt (meets_iff_equiv ht a b).mpr h)]

theorem Represents.double {t : Triple} {g : secp256k1.Point} (h : t.Represents g) :
    t.double.Represents (2 • g) where
  nonsingular := by
    rw [residues_double, ← add_self]
    exact nonsingular_add h.nonsingular h.nonsingular
  toAffine := by
    rw [residues_double, ← add_self, Point.toAffine_add h.nonsingular h.nonsingular, h.toAffine,
      two_nsmul]

theorem Represents.add {t : Triple} {g : secp256k1.Point} (h : t.Represents g) {a b : ℕ}
    (hon : OnCurve a b) : (t.add a b).Represents (g + (Point.affine a b hon).toGroup) := by
  have hpoint : secp256k1.toJacobian.Nonsingular ![(a : Coordinate), b, 1] :=
    (nonsingular_some _ _).mpr hon.nonsingular
  constructor
  · rw [residues_add h.nonsingular]
    exact nonsingular_add h.nonsingular hpoint
  · rw [residues_add h.nonsingular, Point.toAffine_add h.nonsingular hpoint, h.toAffine,
      Point.toAffine_some hpoint, Point.toGroup_affine]

/-- **Doubling and adding triples computes the multiple of the group.** -/
theorem represents_multiple {a b : ℕ} (hon : OnCurve a b) (n : ℕ) :
    (multiple a b n).Represents (n • (Point.affine a b hon).toGroup) := by
  induction n using Nat.strong_induction_on with
  | _ n ih =>
    rw [multiple]
    by_cases hn : n = 0
    · have hinfinity : secp256k1.toJacobian.Nonsingular ![1, 1, 0] := nonsingular_zero
      rw [if_pos hn, hn, zero_nsmul]
      constructor
      · simpa [residues] using hinfinity
      · exact Point.toAffine_of_Z_eq_zero (by simp [residues])
    · -- The copy that is added is the same in every step, so the induction is on the number alone.
      have hhalf := (ih (n / 2) (by omega)).double
      rw [if_neg hn]
      by_cases hodd : n % 2 = 1
      · have hsum := hhalf.add hon
        rw [smul_smul, ← succ_nsmul] at hsum
        simpa only [if_pos hodd, show 2 * (n / 2) + 1 = n by omega] using hsum
      · rw [smul_smul, show 2 * (n / 2) = n by omega] at hhalf
        simpa only [if_neg hodd] using hhalf

theorem Represents.eq_zero_iff {t : Triple} {g : secp256k1.Point} (h : t.Represents g) :
    g = 0 ↔ t.z % fieldPrime = 0 := by
  have hres : (t.z : Coordinate) = 0 ↔ t.z % fieldPrime = 0 := by
    rw [ZMod.natCast_eq_zero_iff, Nat.dvd_iff_mod_eq_zero]
  rw [← h.toAffine, ← hres]
  constructor
  · intro hg
    by_contra hz
    rw [Point.toAffine_of_Z_ne_zero h.nonsingular hz] at hg
    exact Affine.Point.some_ne_zero _ hg
  · intro hz
    exact Point.toAffine_of_Z_eq_zero hz

/-- The abscissa of the point that the triple stands for. -/
def abscissa (t : Triple) : ℕ := t.x * Modular.inverse fieldPrime (t.z ^ 2) % fieldPrime

/-- The ordinate of the point that the triple stands for. -/
def ordinate (t : Triple) : ℕ := t.y * Modular.inverse fieldPrime (t.z ^ 3) % fieldPrime

theorem cast_abscissa (t : Triple) :
    (t.abscissa : Coordinate) = (t.x : Coordinate) / (t.z : Coordinate) ^ 2 := by
  rw [abscissa, ZMod.natCast_mod, Nat.cast_mul, Modular.cast_inverse, Nat.cast_pow, div_eq_mul_inv]

theorem cast_ordinate (t : Triple) :
    (t.ordinate : Coordinate) = (t.y : Coordinate) / (t.z : Coordinate) ^ 3 := by
  rw [ordinate, ZMod.natCast_mod, Nat.cast_mul, Modular.cast_inverse, Nat.cast_pow, div_eq_mul_inv]

end Triple

namespace Point

variable {a b : ℕ} (hon : OnCurve a b) (n : ℕ)

/-- A multiple is infinity exactly when the last number of its triple is zero. -/
theorem smul_eq_infinity_iff :
    smul n (affine a b hon) = infinity ↔ (Triple.multiple a b n).z % fieldPrime = 0 := by
  rw [← toGroup_eq_zero_iff, toGroup_smul, (Triple.represents_multiple hon n).eq_zero_iff]

/-- A multiple that is not infinity has the coordinates that its triple gives. -/
theorem exists_smul_eq_affine (hz : (Triple.multiple a b n).z % fieldPrime ≠ 0) :
    ∃ h, smul n (affine a b hon) =
      affine (Triple.multiple a b n).abscissa (Triple.multiple a b n).ordinate h := by
  have hrep := Triple.represents_multiple hon n
  cases hsmul : smul n (affine a b hon) with
  | infinity => exact absurd ((smul_eq_infinity_iff hon n).mp hsmul) hz
  | affine x y hxy =>
    have hzero : ((Triple.multiple a b n).z : Coordinate) ≠ 0 := natCast_ne_zero hz
    have htriple := Point.toAffine_of_Z_ne_zero hrep.nonsingular hzero
    have hgroup := hrep.toAffine
    rw [← toGroup_smul, hsmul, toGroup_affine, htriple] at hgroup
    obtain ⟨hx, hy⟩ := (Affine.Point.some.injEq ..).mp hgroup
    have habscissa : x = (Triple.multiple a b n).abscissa :=
      eq_of_cast_eq hxy.1 (Nat.mod_lt _ pos_fieldPrime)
        (hx.symm.trans (Triple.cast_abscissa _).symm)
    have hordinate : y = (Triple.multiple a b n).ordinate :=
      eq_of_cast_eq hxy.2.1 (Nat.mod_lt _ pos_fieldPrime)
        (hy.symm.trans (Triple.cast_ordinate _).symm)
    subst habscissa
    subst hordinate
    exact ⟨hxy, rfl⟩

end Point

end WalletApi
