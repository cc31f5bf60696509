import WalletApi.Key.Secret
import WalletApi.Proofs.Curve.Multiples

/-!
# The order of the base point, and sums of keys

The base point has the order `groupOrder`, so the multiples that secret keys stand for are all
different from infinity and from each other. A public key is then the multiple of the base point in
the group (`WalletApi.SecretKey.toGroup_publicKey`), and the map from secret to public keys takes
sums to sums: `WalletApi.PublicKey.ofPoint?_add` says so for the two readings of a sum, as a number
modulo the order and as a point, and also that the one fails exactly when the other does.
-/

namespace WalletApi

/-! ### The base point -/

/-- The base point as an element of the group. -/
def basePoint : secp256k1.Point := Point.generator.toGroup

theorem smul_groupOrder_generator :
    Point.smul groupOrder Point.generator = Point.infinity :=
  (Point.smul_eq_infinity_iff Point.onCurve_generator groupOrder).mpr (by decide +kernel)

theorem basePoint_ne_zero : basePoint ≠ 0 :=
  fun h => Point.noConfusion (Point.toGroup_eq_zero_iff.mp h)

/-- **The base point has the order of the group.** -/
theorem addOrderOf_basePoint : addOrderOf basePoint = groupOrder := by
  refine addOrderOf_eq_prime ?_ basePoint_ne_zero
  rw [basePoint, ← Point.toGroup_smul, smul_groupOrder_generator, Point.toGroup_infinity]

/-- Multiples of the base point are known by their remainders. -/
theorem nsmul_basePoint_eq_iff {a b : ℕ} :
    a • basePoint = b • basePoint ↔ a % groupOrder = b % groupOrder := by
  rw [nsmul_eq_nsmul_iff_modEq, addOrderOf_basePoint]
  rfl

theorem mod_nsmul_basePoint (a : ℕ) : (a % groupOrder) • basePoint = a • basePoint :=
  nsmul_basePoint_eq_iff.mpr (Nat.mod_mod _ _)

/-! ### Public keys as multiples of the base point -/

namespace SecretKey

/-- The multiple of the base point that a secret key stands for is the point of its public key. -/
theorem point_publicKey (k : SecretKey) :
    k.publicKey.point = Point.smul k.value Point.generator := by
  rw [publicKey]
  split
  · next h => exact h.symm
  · next h =>
    -- Infinity would make the key a multiple of the order, and no key is one.
    have hzero : k.value • basePoint = 0 • basePoint := by
      rw [basePoint, ← Point.toGroup_smul, h, Point.toGroup_infinity, zero_nsmul]
    have hmod := nsmul_basePoint_eq_iff.mp hzero
    rw [Nat.mod_eq_of_lt k.lt, Nat.zero_mod] at hmod
    exact absurd hmod k.pos.ne'

/-- **A public key is the multiple of the base point by the secret key.** -/
theorem toGroup_publicKey (k : SecretKey) : k.publicKey.point.toGroup = k.value • basePoint := by
  rw [point_publicKey, Point.toGroup_smul]
  rfl

/-- **A public key belongs to one secret key.** -/
theorem publicKey_injective : Function.Injective publicKey := by
  intro a b h
  have hgroup : a.value • basePoint = b.value • basePoint := by
    rw [← a.toGroup_publicKey, h, b.toGroup_publicKey]
  have hmod := nsmul_basePoint_eq_iff.mp hgroup
  rw [Nat.mod_eq_of_lt a.lt, Nat.mod_eq_of_lt b.lt] at hmod
  cases a
  cases b
  subst hmod
  rfl

end SecretKey

namespace PublicKey

/-- The point of a multiple of the base point is the public key of the number, taken modulo the
order, and no key where this number is zero. -/
theorem ofPoint?_of_toGroup {p : Point} {n : ℕ} (h : p.toGroup = n • basePoint) :
    ofPoint? p = (SecretKey.ofNat? (n % groupOrder)).map SecretKey.publicKey := by
  rw [← mod_nsmul_basePoint] at h
  have hlt : n % groupOrder < groupOrder := Nat.mod_lt _ (by decide)
  by_cases hpos : 0 < n % groupOrder
  · -- The remainder is a key, and points with the same reading are the same.
    have hp : p = (⟨n % groupOrder, hpos, hlt⟩ : SecretKey).publicKey.point :=
      Point.toGroup_injective
        (h.trans (SecretKey.toGroup_publicKey ⟨n % groupOrder, hpos, hlt⟩).symm)
    rw [SecretKey.ofNat?, dif_pos ⟨hpos, hlt⟩, hp, ofPoint?_point, Option.map_some]
  · have hzero : n % groupOrder = 0 := Nat.eq_zero_of_not_pos hpos
    rw [hzero, zero_nsmul] at h
    rw [SecretKey.ofNat?, dif_neg fun hc => hpos hc.1, Point.toGroup_eq_zero_iff.mp h,
      Option.map_none]
    rfl

/-- **The sum of two public keys is the public key of the sum.** -/
theorem ofPoint?_add (a b : SecretKey) :
    ofPoint? (a.publicKey.point.add b.publicKey.point) =
      (SecretKey.ofNat? ((a.value + b.value) % groupOrder)).map SecretKey.publicKey := by
  refine ofPoint?_of_toGroup ?_
  rw [Point.toGroup_add, a.toGroup_publicKey, b.toGroup_publicKey, ← add_nsmul]

end PublicKey

end WalletApi
