import WalletApi.Curve.Signature
import WalletApi.Proofs.Curve.Compressed
import WalletApi.Proofs.Curve.Order
import WalletApi.Proofs.Hash.Numbers

/-!
# Signatures lead back to their signer

A signature `(r, s)` of a number `z` made with a nonce point `m • basePoint` solves the equation
`s * m = z + r * d` modulo the order of the group, where `d` is the secret key. From the signature
alone a verifier knows the nonce point up to two bits, which travel with it, and solves the equation
for `d • basePoint`. Taking the smaller of the two values of `s` changes the sign of the nonce point
as well, so the equation stays true for the point that the flags describe.

Main results:

* `WalletApi.Signature.recover?_eq_some_iff` – whoever solves the equation is recovered as the
  signer, and nobody else is;
* `WalletApi.Signature.recover?_sign?` – a signature that was made leads back to its key, and
  `WalletApi.Signature.MadeBy.recover?_eq_some_iff` – for no other digest;
* `WalletApi.Signature.ofCompact?_compact` – and survives being written as sixty-five bytes;
* `WalletApi.Signature.isSome_sign?_of_draw` – there is a signature where the first nonce gives one.
-/

namespace WalletApi

/-- The field of the numbers in a signature. -/
abbrev Scalar : Type := ZMod groupOrder

theorem nsmul_basePoint_eq_iff_cast {a b : ℕ} :
    a • basePoint = b • basePoint ↔ (a : Scalar) = b := by
  rw [nsmul_basePoint_eq_iff, ZMod.natCast_eq_natCast_iff']

theorem pos_groupOrder : 0 < groupOrder := by decide

theorem fieldPrime_lt_two_mul_groupOrder : fieldPrime < 2 * groupOrder := by decide

/-! ### Points over one abscissa -/

theorem OnCurve.opposite {x y : ℕ} (h : OnCurve x y) :
    OnCurve x ((fieldPrime - y) % fieldPrime) := by
  have hlt : (fieldPrime - y) % fieldPrime < fieldPrime := Nat.mod_lt _ Point.pos_fieldPrime
  refine ⟨h.1, hlt, ?_⟩
  have hcast : (y : Coordinate) * y = ((x * x * x + 7 : ℕ) : Coordinate) := by
    rw [← Nat.cast_mul, ZMod.natCast_eq_natCast_iff', h.2.2]
  rw [← ZMod.natCast_eq_natCast_iff', Nat.cast_mul, Point.cast_opposite h.2.1, neg_mul_neg, hcast]

namespace Point

/-- The point over the same abscissa whose ordinate has the other parity is the opposite point. -/
theorem lift?_other_parity {x y : ℕ} (h : OnCurve x y) :
    lift? x (!(y % 2 == 1)) = some (affine x y h).neg := by
  have hpos := Nat.pos_of_ne_zero h.ordinate_ne_zero
  have hparity : ((fieldPrime - y) % fieldPrime % 2 == 1) = !(y % 2 == 1) := by
    rw [Nat.mod_eq_of_lt (Nat.sub_lt pos_fieldPrime hpos), parity_opposite h.2.1]
  rw [← hparity, lift?_parity h.opposite, neg, ofCoordinates, dif_pos h.opposite]

end Point

namespace Signature

/-! ### Recovering the signer -/

theorem cast_ne_zero {r : ℕ} (hr : r ≠ 0) (hlt : r < groupOrder) : (r : Scalar) ≠ 0 := by
  intro hzero
  have hmod := Nat.mod_eq_zero_of_dvd ((ZMod.natCast_eq_zero_iff _ _).mp hzero)
  exact hr (Nat.mod_eq_of_lt hlt ▸ hmod)

section Recovery

variable {σ : Signature} {m : ℕ} {R : Point} (hr : σ.r ≠ 0) (hs : σ.s ≠ 0) (hlt : σ.r < groupOrder)
  (hpoint : σ.noncePoint? = some R) (hR : R.toGroup = m • basePoint)

include hr hs hlt hpoint hR

/-- **Recovery solves the equation of the signature** for the secret key: what is found is the
public key of the solution. -/
theorem exists_recover?_eq (digest : Bytes) :
    ∃ d : ℕ, σ.recover? digest = (SecretKey.ofNat? (d % groupOrder)).map SecretKey.publicKey ∧
      (σ.s * m : Scalar) = scalar digest + σ.r * d := by
  have hcast := cast_ne_zero hr hlt
  set w := Modular.inverse groupOrder σ.r with hw
  have hinv : (w : Scalar) * σ.r = 1 := by rw [hw, Modular.cast_inverse, inv_mul_cancel₀ hcast]
  -- Multiplied by the inverse of `r`, the equation gives the secret key.
  obtain ⟨d, hd⟩ : ∃ d : ℕ, (d : Scalar) = w * (σ.s * m - scalar digest) :=
    ⟨_, ZMod.natCast_zmod_val _⟩
  have hdifference : (w * σ.s % groupOrder) • R.toGroup -
      (w * scalar digest % groupOrder) • basePoint = d • basePoint := by
    rw [hR, sub_eq_iff_eq_add, ← mul_nsmul', ← add_nsmul, nsmul_basePoint_eq_iff_cast]
    push_cast [ZMod.natCast_mod]
    linear_combination -hd
  have hgroup : ((Point.smul (w * σ.s % groupOrder) R).add
      (Point.smul (w * scalar digest % groupOrder) Point.generator).neg).toGroup =
      d • basePoint := by
    rw [Point.toGroup_add, Point.toGroup_neg, Point.toGroup_smul, Point.toGroup_smul,
      ← sub_eq_add_neg]
    exact hdifference
  refine ⟨d, ?_, ?_⟩
  · rw [recover?, if_neg (not_or.mpr ⟨hr, hs⟩), hpoint]
    simp only [← hw]
    exact PublicKey.ofPoint?_of_toGroup hgroup
  · linear_combination -(σ.s * m - scalar digest : Scalar) * hinv - (σ.r : Scalar) * hd

/-- **Whoever solves the equation of the signature is recovered as the signer**, and nobody else is.
-/
theorem recover?_eq_some_iff {digest : Bytes} {k : SecretKey} :
    σ.recover? digest = some k.publicKey ↔
      (σ.s * m : Scalar) = scalar digest + σ.r * k.value := by
  obtain ⟨d, hrecover, heq⟩ := exists_recover?_eq hr hs hlt hpoint hR digest
  have hkey : σ.recover? digest = some k.publicKey ↔ (d : Scalar) = k.value := by
    rw [hrecover, ZMod.natCast_eq_natCast_iff', Nat.mod_eq_of_lt k.lt,
      ← SecretKey.ofNat?_eq_some_iff, ← Option.map_some,
      (Option.map_injective SecretKey.publicKey_injective).eq_iff]
  rw [hkey, heq, add_right_inj, mul_right_inj' (cast_ne_zero hr hlt)]

end Recovery

/-- The flags of a signature describe a point of the curve by its abscissa. -/
theorem noncePoint?_eq {x : ℕ} (hx : x < fieldPrime) (s : ℕ) (odd : Bool) :
    noncePoint? ⟨x % groupOrder, s, odd, groupOrder ≤ x⟩ = Point.lift? x odd := by
  have htwice := fieldPrime_lt_two_mul_groupOrder
  by_cases hle : groupOrder ≤ x
  · -- The order was taken off once, and the flag tells the reader to add it again.
    have hmod : x % groupOrder + groupOrder = x := by
      rw [Nat.mod_eq_sub_mod hle, Nat.mod_eq_of_lt (by omega)]
      omega
    rw [noncePoint?]
    simp only [hle, decide_true, if_true, hmod, hx]
  · rw [noncePoint?, Nat.mod_eq_of_lt (by omega)]
    simp only [hle, decide_false, Bool.false_eq_true, if_false]

/-- A signature made of `z` by a key: its numbers are in range, and the point that its flags
describe solves the equation. -/
structure MadeBy (σ : Signature) (k : SecretKey) (z : ℕ) : Prop where
  r_ne_zero : σ.r ≠ 0
  s_ne_zero : σ.s ≠ 0
  r_lt : σ.r < groupOrder
  s_lt : σ.s < groupOrder
  equation : ∃ (R : Point) (m : ℕ), σ.noncePoint? = some R ∧ R.toGroup = m • basePoint ∧
    (σ.s * m : Scalar) = z + σ.r * k.value

section Nonce

variable {k : SecretKey} {z nonce x y s : ℕ} {hon : OnCurve x y}

/-- The equation of a signature, for the point that its flags describe. -/
theorem madeBy_of_equation (hgroup : (Point.affine x y hon).toGroup = nonce • basePoint)
    (hr : x % groupOrder ≠ 0) (hs : s ≠ 0) (hlt : s < groupOrder)
    (heq : (s * nonce : Scalar) = z + (x % groupOrder : ℕ) * k.value) :
    MadeBy ⟨x % groupOrder, s, y % 2 == 1, groupOrder ≤ x⟩ k z where
  r_ne_zero := hr
  s_ne_zero := hs
  r_lt := Nat.mod_lt _ pos_groupOrder
  s_lt := hlt
  equation := by
    refine ⟨.affine x y hon, nonce, ?_, hgroup, heq⟩
    rw [noncePoint?_eq hon.1, Point.lift?_parity hon]

/-- Negating both the nonce point and `s` keeps a signature. -/
theorem madeBy_of_equation_neg (hgroup : (Point.affine x y hon).toGroup = nonce • basePoint)
    (hr : x % groupOrder ≠ 0) (hs : s ≠ 0) (hlt : s < groupOrder)
    (heq : (s * nonce : Scalar) = z + (x % groupOrder : ℕ) * k.value) :
    MadeBy ⟨x % groupOrder, groupOrder - s, !(y % 2 == 1), groupOrder ≤ x⟩ k z where
  r_ne_zero := hr
  s_ne_zero := Nat.sub_ne_zero_of_lt hlt
  r_lt := Nat.mod_lt _ pos_groupOrder
  s_lt := Nat.sub_lt pos_groupOrder (Nat.pos_of_ne_zero hs)
  equation := by
    -- The opposite point is a multiple too: `groupOrder - 1` stands for minus one.
    refine ⟨(Point.affine x y hon).neg, (groupOrder - 1) * nonce, ?_, ?_, ?_⟩
    · rw [noncePoint?_eq hon.1, Point.lift?_other_parity hon]
    · rw [Point.toGroup_neg, hgroup, neg_eq_iff_add_eq_zero, ← add_nsmul, ← zero_nsmul basePoint,
        nsmul_basePoint_eq_iff_cast, Nat.cast_add, Nat.cast_mul, Nat.cast_sub pos_groupOrder,
        ZMod.natCast_self]
      push_cast
      ring
    · rw [Nat.cast_sub hlt.le, Nat.cast_mul, Nat.cast_sub pos_groupOrder, ZMod.natCast_self]
      push_cast
      linear_combination heq

end Nonce

/-- A nonce that leads to a point of the curve is not zero as a scalar. -/
theorem nonce_ne_zero {nonce x y : ℕ} {hon : OnCurve x y}
    (hgroup : (Point.affine x y hon).toGroup = nonce • basePoint) : (nonce : Scalar) ≠ 0 := by
  intro hzero
  have hinfinity : nonce • basePoint = 0 • basePoint :=
    nsmul_basePoint_eq_iff_cast.mpr (by rw [hzero, Nat.cast_zero])
  rw [zero_nsmul, ← hgroup, Point.toGroup_eq_zero_iff] at hinfinity
  exact nomatch hinfinity

/-- What a nonce gives is a signature. -/
theorem madeBy_of_withNonce? {k : SecretKey} {z nonce : ℕ} {σ : Signature}
    (h : withNonce? k z nonce = some σ) : MadeBy σ k z := by
  rw [withNonce?] at h
  cases hpoint : Point.smul nonce Point.generator with
  | infinity =>
    rw [hpoint] at h
    exact nomatch h
  | affine x y hon =>
    have hgroup : (Point.affine x y hon).toGroup = nonce • basePoint := by
      rw [← hpoint, Point.toGroup_smul]
      rfl
    have hnonce := nonce_ne_zero hgroup
    rw [hpoint] at h
    simp only at h
    set s := Modular.inverse groupOrder nonce * (z + x % groupOrder * k.value) % groupOrder with hs
    have heq : (s * nonce : Scalar) = z + (x % groupOrder : ℕ) * k.value := by
      rw [hs, ZMod.natCast_mod, Nat.cast_mul, Nat.cast_add, Nat.cast_mul, Modular.cast_inverse]
      field_simp
    have hlt : s < groupOrder := Nat.mod_lt _ pos_groupOrder
    by_cases hzero : x % groupOrder = 0 ∨ s = 0
    · rw [if_pos hzero] at h
      exact nomatch h
    obtain ⟨hr, hs⟩ := not_or.mp hzero
    rw [if_neg hzero] at h
    by_cases hhigh : groupOrder / 2 < s
    · rw [if_pos hhigh] at h
      obtain rfl := Option.some.inj h
      exact madeBy_of_equation_neg hgroup hr hs hlt heq
    · rw [if_neg hhigh] at h
      obtain rfl := Option.some.inj h
      exact madeBy_of_equation hgroup hr hs hlt heq

/-- What the search for a usable nonce finds is a signature. -/
theorem madeBy_of_search? {k : SecretKey} {z : ℕ} {σ : Signature} (tries : ℕ) {g : NonceSource}
    (h : search? k z tries g = some σ) : MadeBy σ k z := by
  induction tries generalizing g with
  | zero => exact nomatch h
  | succ tries ih =>
    rw [search?] at h
    cases hnonce : SecretKey.ofBytes? g.draw.value with
    | none =>
      -- Nothing is lost by a draw that gives no nonce: the search goes on with the next one.
      simp only [hnonce] at h
      exact ih h
    | some nonce =>
      simp only [hnonce] at h
      cases hfound : withNonce? k z nonce.value with
      | none =>
        simp only [hfound] at h
        exact ih h
      | some found =>
        simp only [hfound, Option.some.injEq] at h
        exact h ▸ madeBy_of_withNonce? hfound

theorem madeBy_of_sign? {k : SecretKey} {digest : Bytes} {σ : Signature}
    (h : sign? k digest = some σ) : MadeBy σ k (scalar digest) := madeBy_of_search? _ h

/-- **A signature that was made leads back to its key.** -/
theorem recover?_sign? {k : SecretKey} {digest : Bytes} {σ : Signature}
    (h : sign? k digest = some σ) : σ.recover? digest = some k.publicKey := by
  have hmade := madeBy_of_sign? h
  obtain ⟨R, m, hpoint, hR, heq⟩ := hmade.equation
  exact (recover?_eq_some_iff hmade.r_ne_zero hmade.s_ne_zero hmade.r_lt hpoint hR).mpr heq

/-- **The key is recovered from its signature for one digest only**, taken modulo the order. -/
theorem MadeBy.recover?_eq_some_iff {σ : Signature} {k : SecretKey} {z : ℕ} (h : MadeBy σ k z)
    {digest : Bytes} :
    σ.recover? digest = some k.publicKey ↔ (scalar digest : Scalar) = z := by
  obtain ⟨R, m, hpoint, hR, heq⟩ := h.equation
  rw [Signature.recover?_eq_some_iff h.r_ne_zero h.s_ne_zero h.r_lt hpoint hR, heq, add_left_inj,
    eq_comm]

/-! ### Signing with the first nonce -/

/-- A nonce gives a signature: its point is not infinity, and neither number is zero. The numbers
are found without an inverse for every sum of points, so this evaluates fast. -/
def NonceSigns (k : SecretKey) (z nonce : ℕ) : Prop :=
  let point := Triple.multiple Point.generatorX Point.generatorY nonce
  point.z % fieldPrime ≠ 0 ∧ point.abscissa % groupOrder ≠ 0 ∧
    Modular.inverse groupOrder nonce * (z + point.abscissa % groupOrder * k.value) % groupOrder ≠ 0

instance (k : SecretKey) (z nonce : ℕ) : Decidable (NonceSigns k z nonce) := by
  unfold NonceSigns
  infer_instance

theorem isSome_withNonce? {k : SecretKey} {z nonce : ℕ} (h : NonceSigns k z nonce) :
    (withNonce? k z nonce).isSome = true := by
  obtain ⟨hpoint, hr, hs⟩ := h
  obtain ⟨hon, hsmul⟩ := Point.exists_smul_eq_affine Point.onCurve_generator nonce hpoint
  rw [withNonce?, Point.generator, hsmul]
  simp only [hr, hs, or_self, if_false]
  split
  · exact Option.isSome_some
  · exact Option.isSome_some

/-- A search ends with its first nonce where this one gives a signature. -/
theorem isSome_search?_of_draw {k nonce : SecretKey} {z : ℕ} {g : NonceSource} (tries : ℕ)
    (hdraw : SecretKey.ofBytes? g.draw.value = some nonce) (h : NonceSigns k z nonce.value) :
    (search? k z (tries + 1) g).isSome = true := by
  obtain ⟨σ, hσ⟩ := Option.isSome_iff_exists.mp (isSome_withNonce? h)
  rw [search?]
  simp only [hdraw, hσ, Option.isSome_some]

/-- The bytes of the first nonce that a key and a digest lead to, with the keyed digests on
numbers. -/
def firstDraw (k : SecretKey) (digest : Bytes) : Bytes :=
  let keyed := Hmac.keyed Sha256.design.hash 64
  let seed := k.bytes ++ Bytes.ofNat 32 (scalar digest)
  let v := List.replicate 32 1
  let key := keyed (List.replicate 32 0) (v ++ 0 :: seed)
  let v := keyed key v
  let key := keyed key (v ++ 1 :: seed)
  keyed key (keyed key v)

theorem value_draw_start (k : SecretKey) (digest : Bytes) :
    (NonceSource.start k digest).draw.value = firstDraw k digest := by
  simp only [NonceSource.draw, NonceSource.start, Hmac.sha256, Sha256.hash_eq, firstDraw]

/-- A key signs a digest where the first nonce gives a signature. -/
theorem isSome_sign?_of_draw {k : SecretKey} {digest : Bytes}
    (h : ∃ nonce ∈ SecretKey.ofBytes? (firstDraw k digest),
      NonceSigns k (scalar digest) nonce.value) : (sign? k digest).isSome = true := by
  obtain ⟨nonce, hdraw, hsigns⟩ := h
  rw [← value_draw_start] at hdraw
  have hsearch := isSome_search?_of_draw 63 hdraw hsigns
  rw [sign?]
  exact hsearch

/-! ### Sixty-five bytes -/

theorem flags_lt (σ : Signature) : σ.flags < 4 := by
  rw [flags]
  split <;> split <;> omega

theorem odd_of_flags (σ : Signature) : (σ.flags % 2 == 1) = σ.odd := by
  rw [flags]
  cases σ.odd <;> cases σ.wrapped <;> rfl

theorem wrapped_of_flags (σ : Signature) : decide (2 ≤ σ.flags) = σ.wrapped := by
  rw [flags]
  cases σ.odd <;> cases σ.wrapped <;> rfl

/-- **Reading the compact form gives the signature back**, where both numbers are in range. -/
theorem ofCompact?_compact {σ : Signature} (hr : σ.r < groupOrder) (hs : σ.s < groupOrder) :
    ofCompact? σ.compact = some σ := by
  have hcapacity : groupOrder < Bytes.capacity 32 := by decide
  have htake : (Bytes.ofNat 32 σ.r ++ Bytes.ofNat 32 σ.s).take 32 = Bytes.ofNat 32 σ.r :=
    List.take_left' (Bytes.length_ofNat _ _)
  have hdrop : (Bytes.ofNat 32 σ.r ++ Bytes.ofNat 32 σ.s).drop 32 = Bytes.ofNat 32 σ.s :=
    List.drop_left' (Bytes.length_ofNat _ _)
  have hrval : Bytes.toNat (Bytes.ofNat 32 σ.r) = σ.r := by
    rw [Bytes.toNat_ofNat, Nat.mod_eq_of_lt (hr.trans hcapacity)]
  have hsval : Bytes.toNat (Bytes.ofNat 32 σ.s) = σ.s := by
    rw [Bytes.toNat_ofNat, Nat.mod_eq_of_lt (hs.trans hcapacity)]
  have hflags := σ.flags_lt
  have hhead : (UInt8.ofNat (compactBase + σ.flags)).toNat = 31 + σ.flags := by
    rw [UInt8.toNat_ofNat', compactBase]
    omega
  have hlow : (31 + σ.flags - 27) % 4 = σ.flags := by omega
  have hlen : (Bytes.ofNat 32 σ.r ++ Bytes.ofNat 32 σ.s).length = 64 := by
    rw [List.length_append, Bytes.length_ofNat, Bytes.length_ofNat]
  rw [compact, ofCompact?]
  simp only [htake, hdrop, hrval, hsval, hhead, hlow, hlen]
  rw [if_pos ⟨trivial, by omega, hr, hs⟩, odd_of_flags, wrapped_of_flags]

end Signature

end WalletApi
