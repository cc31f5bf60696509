import WalletApi.Key.Secret
import WalletApi.Proofs.Curve.Group

/-!
# Reading a compressed public key

The short form of a public key keeps the abscissa and the parity of the ordinate, and the ordinate
is found again as a root. For a prime that leaves the remainder three modulo four, the power of
exponent `(fieldPrime + 1) / 4` of a square is one of its two roots. They are `y` and
`fieldPrime - y`, and of these two numbers one is odd, so the parity tells them apart.

Main results:

* `WalletApi.Point.lift?_parity` – the point of the curve over an abscissa with a given parity is
  the one that the abscissa and the parity were taken from;
* `WalletApi.PublicKey.ofBytes?_compressed` – reading the thirty-three bytes of a public key gives
  the key back;
* `WalletApi.PublicKey.compressed_of_ofBytes?` – and these are the only ones that do. The ordinate
  is never zero, so it always has the parity that was asked for.
-/

namespace WalletApi

/-- The curve has no point on the axis, because `-7` is no cube. -/
theorem OnCurve.ordinate_ne_zero {x y : ℕ} (h : OnCurve x y) : y ≠ 0 := by
  rintro rfl
  -- A third of the way to Fermat's exponent, the power of a cube is already one.
  have hpow : Modular.pow fieldPrime (fieldPrime - 7) ((fieldPrime - 1) / 3) ≠ 1 := by
    decide +kernel
  have hexp : 3 * ((fieldPrime - 1) / 3) = fieldPrime - 1 := by decide +kernel
  have hcube : (x : Coordinate) ^ 3 = -7 := by
    have hzero : ((0 * 0 : ℕ) : Coordinate) = ((x * x * x + 7 : ℕ) : Coordinate) := by
      rw [ZMod.natCast_eq_natCast_iff', h.2.2]
    push_cast at hzero
    linear_combination -hzero
  have hx : (x : Coordinate) ≠ 0 := by
    intro hx
    rw [hx] at hcube
    have hseven : ((7 : ℕ) : Coordinate) ≠ 0 := natCast_ne_zero (by decide)
    refine hseven ?_
    push_cast
    linear_combination hcube
  refine hpow (eq_of_cast_eq ?_ (by decide) ?_)
  · rw [Modular.pow_eq]
    exact Nat.mod_lt _ Point.pos_fieldPrime
  · have hbase : ((fieldPrime - 7 : ℕ) : Coordinate) = (x : Coordinate) ^ 3 := by
      rw [hcube, Nat.cast_sub (by decide), ZMod.natCast_self, zero_sub]
      rfl
    rw [Modular.cast_pow, hbase, ← pow_mul, hexp, ZMod.pow_card_sub_one_eq_one hx, Nat.cast_one]

namespace Point

/-- A candidate for the root of the right side of the equation. -/
def rootOf (x : ℕ) : ℕ :=
  Modular.pow fieldPrime ((x * x * x + 7) % fieldPrime) ((fieldPrime + 1) / 4)

theorem rootOf_lt (x : ℕ) : rootOf x < fieldPrime := by
  rw [rootOf, Modular.pow_eq]
  exact Nat.mod_lt _ pos_fieldPrime

/-- The candidate is the ordinate up to its sign: its square is `y ^ (fieldPrime + 1)`, and this is
the square of `y` by Fermat's theorem. -/
theorem cast_rootOf {x y : ℕ} (h : OnCurve x y) :
    (rootOf x : Coordinate) = (y : Coordinate) ∨ (rootOf x : Coordinate) = -(y : Coordinate) := by
  have hsquare : (((x * x * x + 7) % fieldPrime : ℕ) : Coordinate) = (y : Coordinate) ^ 2 := by
    rw [← h.2.2, ZMod.natCast_mod, Nat.cast_mul, sq]
  have hexp : 2 * ((fieldPrime + 1) / 4 * 2) = fieldPrime + 1 := by decide +kernel
  refine sq_eq_sq_iff_eq_or_eq_neg.mp ?_
  calc (rootOf x : Coordinate) ^ 2
      = (((y : Coordinate) ^ 2) ^ ((fieldPrime + 1) / 4)) ^ 2 := by
        rw [rootOf, Modular.cast_pow, hsquare]
    _ = (y : Coordinate) ^ (fieldPrime + 1) := by rw [← pow_mul, ← pow_mul, hexp]
    _ = (y : Coordinate) ^ 2 := by rw [pow_succ, ZMod.pow_card, sq]

/-- As a number the candidate is the ordinate or its opposite. -/
theorem rootOf_eq {x y : ℕ} (h : OnCurve x y) :
    rootOf x = y ∨ rootOf x = (fieldPrime - y) % fieldPrime := by
  rcases cast_rootOf h with hy | hy
  · exact .inl (eq_of_cast_eq (rootOf_lt x) h.2.1 hy)
  · refine .inr (eq_of_cast_eq (rootOf_lt x) (Nat.mod_lt _ pos_fieldPrime) ?_)
    rw [hy, cast_opposite h.2.1]

/-- A number and what it lacks to the prime have different parities, since the prime is odd. -/
theorem parity_opposite {y : ℕ} (hy : y < fieldPrime) :
    ((fieldPrime - y) % 2 == 1) = !(y % 2 == 1) := by
  have hodd : fieldPrime % 2 = 1 := by decide
  rcases Nat.mod_two_eq_zero_or_one y with h | h
  · have hother : (fieldPrime - y) % 2 = 1 := by omega
    rw [h, hother]
    rfl
  · have hother : (fieldPrime - y) % 2 = 0 := by omega
    rw [h, hother]
    rfl

/-- Among a number and its opposite the parity picks the number. -/
theorem pick_parity {y root : ℕ} (hy : y < fieldPrime)
    (h : root = y ∨ root = (fieldPrime - y) % fieldPrime) :
    (if (root % 2 == 1) == (y % 2 == 1) then root else (fieldPrime - root) % fieldPrime) = y := by
  rcases Nat.eq_zero_or_pos y with rfl | hpos
  · -- Zero is its own opposite, and there is nothing to pick.
    have hroot : root = 0 := by simpa using h
    rw [hroot, if_pos (beq_self_eq_true _)]
  · rw [Nat.mod_eq_of_lt (Nat.sub_lt pos_fieldPrime hpos)] at h
    rcases h with rfl | rfl
    · rw [if_pos (beq_self_eq_true _)]
    · have hback : fieldPrime - (fieldPrime - y) = y := by omega
      have hne : ¬ (((fieldPrime - y) % 2 == 1) == (y % 2 == 1)) = true := by
        rw [parity_opposite hy]
        cases (y % 2 == 1) <;> decide
      rw [if_neg hne, hback, Nat.mod_eq_of_lt hy]

/-- **A point is found again** from its abscissa and the parity of its ordinate. -/
theorem lift?_parity {x y : ℕ} (h : OnCurve x y) :
    lift? x (y % 2 == 1) = some (affine x y h) := by
  have hpick := pick_parity h.2.1 (rootOf_eq h)
  rw [rootOf] at hpick
  rw [lift?]
  simp only [hpick, dif_pos h]

/-- Of the candidate and its opposite, one that is not zero is taken with the parity asked for. -/
theorem parity_of_pick {root : ℕ} {odd : Bool} (hroot : root < fieldPrime)
    (hne : (if (root % 2 == 1) == odd then root else (fieldPrime - root) % fieldPrime) ≠ 0) :
    ((if (root % 2 == 1) == odd then root else (fieldPrime - root) % fieldPrime) % 2 == 1) =
      odd := by
  split at hne
  · next heq => rw [if_pos heq, eq_of_beq heq]
  · next hother =>
    have hpos : 0 < root := Nat.pos_of_ne_zero fun hzero => hne (by rw [hzero, Nat.sub_zero,
      Nat.mod_self])
    rw [if_neg hother, Nat.mod_eq_of_lt (Nat.sub_lt pos_fieldPrime hpos), parity_opposite hroot]
    revert hother
    cases (root % 2 == 1) <;> cases odd <;> decide

/-- A point that is found over an abscissa has this abscissa, and an ordinate as it was asked for.
-/
theorem parity_of_lift? {x x' y : ℕ} {odd : Bool} {hon : OnCurve x' y}
    (h : lift? x odd = some (affine x' y hon)) : x' = x ∧ (y % 2 == 1) = odd := by
  have hpick := @parity_of_pick (rootOf x) odd (rootOf_lt x)
  rw [lift?, ← rootOf] at h
  generalize (if (rootOf x % 2 == 1) == odd then rootOf x else (fieldPrime - rootOf x) % fieldPrime)
    = y' at h hpick
  split at h
  · next hlift =>
    obtain ⟨rfl, rfl⟩ := Point.affine.inj (Option.some.inj h)
    exact ⟨rfl, hpick hon.ordinate_ne_zero⟩
  · cases h

end Point

namespace PublicKey

/-- **Reading the bytes of a public key gives the key back.** -/
theorem ofBytes?_compressed (k : PublicKey) : ofBytes? k.compressed = some k := by
  have hlt : k.x < Bytes.capacity 32 := Nat.lt_trans k.onCurve.1 (by decide)
  have hx : Bytes.toNat ((Bytes.ofNat 32 k.x).take 32) = k.x := by
    rw [List.take_of_length_le (Bytes.length_ofNat _ _).le, Bytes.toNat_ofNat,
      Nat.mod_eq_of_lt hlt]
  have hlift := Point.lift?_parity k.onCurve
  have hthree : ¬ (3 : UInt8) = 2 := by decide
  rw [compressed]
  by_cases hy : k.y % 2 = 0
  · have hparity : (k.y % 2 == 1) = false := by rw [hy]; rfl
    rw [if_pos hy, ofBytes?]
    simp only [Bytes.length_ofNat, if_true, hx, hparity ▸ hlift]
    rfl
  · have hparity : (k.y % 2 == 1) = true := by simpa using hy
    rw [if_neg hy, ofBytes?]
    simp only [Bytes.length_ofNat, if_true, hx, hthree, if_false, hparity ▸ hlift]
    rfl

/-- **A key keeps the thirty-three bytes that it is read from.** -/
theorem compressed_of_ofBytes? {bs : Bytes} {k : PublicKey} (hlen : bs.length = 33)
    (h : ofBytes? bs = some k) : k.compressed = bs := by
  match bs, hlen with
  | tag :: coordinates, hlen =>
    have hwidth : coordinates.length = 32 := by rw [List.length_cons] at hlen; omega
    have hread : ∀ odd, (Point.lift? (Bytes.toNat coordinates) odd).bind ofPoint? = some k →
        k.compressed = (if odd = true then 3 else 2) :: coordinates := by
      intro odd hk
      obtain ⟨p, hp, hk⟩ := Option.bind_eq_some_iff.mp hk
      cases p with
      | infinity => cases hk
      | affine x y hon =>
        obtain rfl := Option.some.inj hk
        obtain ⟨rfl, hodd⟩ := Point.parity_of_lift? hp
        rw [compressed, Bytes.ofNat_toNat hwidth, ← hodd]
        rcases Nat.mod_two_eq_zero_or_one y with hy | hy
        · simp only [hy]
          rfl
        · simp only [hy]
          rfl
    rw [ofBytes?] at h
    simp only [hwidth, if_true, List.take_of_length_le hwidth.le] at h
    split at h
    · next htag => rw [htag]; exact hread false h
    · split at h
      · next htag => rw [htag]; exact hread true h
      · cases h

end PublicKey

end WalletApi
