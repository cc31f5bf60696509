import WalletApi.Proofs.Curve.Order
import WalletApi.Proofs.Hash.Numbers
import WalletApi.Proofs.Key.Depth

/-!
# Following a path by keys and chain codes

A step of a path depends on three things of a secret extended key: the key, the chain code, and
whether there is a level below. The fingerprint of the parent and the number among its children only
travel along. So where a path does not lead too deep it can be followed on keys and chain codes
alone (`WalletApi.Xpriv.exists_descendant_of_foldlM`).

A step that is not hardened also needs the public key on the way, and the multiple of the base point
that it is comes with an inverse of the field for every sum of points. It has the same thirty-three
bytes as the triple that stands for this multiple (`WalletApi.SecretKey.compressed_publicKey`), and
with these a path of a known key evaluates.
-/

namespace WalletApi

/-! ### Public keys by triples -/

/-- The thirty-three bytes of the point that the triple stands for. -/
def Triple.compressed (t : Triple) : Bytes :=
  (if t.ordinate % 2 = 0 then 2 else 3) :: Bytes.ofNat 32 t.abscissa

namespace SecretKey

/-- The multiple of the base point by a secret key, with the inverses put off. -/
def triple (k : SecretKey) : Triple := Triple.multiple Point.generatorX Point.generatorY k.value

/-- **A public key has the coordinates of its triple.** -/
theorem coordinates_publicKey (k : SecretKey) :
    k.publicKey.x = k.triple.abscissa ∧ k.publicKey.y = k.triple.ordinate := by
  have hpoint := k.point_publicKey
  have hz : k.triple.z % fieldPrime ≠ 0 := fun hzero => by
    rw [Point.generator, (Point.smul_eq_infinity_iff _ _).mpr hzero] at hpoint
    exact Point.noConfusion hpoint
  obtain ⟨hon, hsmul⟩ := Point.exists_smul_eq_affine Point.onCurve_generator k.value hz
  rw [Point.generator, hsmul] at hpoint
  exact ⟨(Point.affine.inj hpoint).1, (Point.affine.inj hpoint).2⟩

theorem compressed_publicKey (k : SecretKey) :
    k.publicKey.compressed = k.triple.compressed := by
  obtain ⟨hx, hy⟩ := k.coordinates_publicKey
  rw [PublicKey.compressed, Triple.compressed, hx, hy]

end SecretKey

/-! ### Steps on keys and chain codes -/

/-- **A key and a chain code**, on which the steps of a path depend. -/
structure KeyState where
  key : SecretKey
  chainCode : Bytes.Sized 32
deriving DecidableEq

namespace KeyState

/-- The bytes that a step digests, with the key in front. -/
def input (s : KeyState) (c : ChildNumber) : Bytes :=
  (if c.isHardened then 0 :: s.key.bytes else s.key.triple.compressed) ++ c.bytes

/-- The key and the chain code that a step leads to, if the digest is usable. It is taken on
numbers. -/
def next? (s : KeyState) (c : ChildNumber) : Option KeyState :=
  let digest := Hmac.keyed Sha512.design.hash 128 s.chainCode.val (s.input c)
  (SecretKey.ofBytes? (digest.take 32)).bind fun tweak =>
    (SecretKey.ofNat? ((tweak.value + s.key.value) % groupOrder)).map fun key =>
      ⟨key, Bytes.slice 32 32 digest⟩

end KeyState

namespace Xpriv

variable {k : Xpriv} {s : KeyState}

/-- The key and the chain code of an extended key. -/
def state (k : Xpriv) : KeyState := ⟨k.key, k.chainCode⟩

/-- Where there is a level below, a step on the key and the chain code is a step of the whole. -/
theorem exists_derive_of_next? {c : ChildNumber} (hdepth : k.depth.toNat < 255)
    (h : k.state.next? c = some s) : ∃ child, k.derive c = .ok child ∧ child.state = s := by
  have hdigest : ∀ key message, Hmac.keyed Sha512.design.hash 128 key message =
      Hmac.sha512 key message := fun key message => by rw [Hmac.sha512, Sha512.hash_eq]
  simp only [KeyState.next?, hdigest] at h
  obtain ⟨tweak, htweak, h⟩ := Option.bind_eq_some_iff.mp h
  obtain ⟨key, hkey, rfl⟩ := Option.map_eq_some_iff.mp h
  have hinput : (if c.isHardened then 0 :: k.key.bytes else k.key.publicKey.compressed) ++ c.bytes =
      k.state.input c := by
    rw [k.key.compressed_publicKey]
    rfl
  have hlevel : k.depth ≠ 255 := fun heq => by
    rw [heq] at hdepth
    exact absurd hdepth (by decide)
  refine ⟨⟨⟨k.network, k.depth + 1, k.key.publicKey.fingerprint, c,
    Bytes.slice 32 32 (Hmac.sha512 k.chainCode.val (k.state.input c))⟩, key⟩, ?_, rfl⟩
  simp only [state] at htweak hkey
  simp only [derive, hinput, state, htweak, hkey, Lineage.below?, if_neg hlevel]

/-- **A path that is followed on keys and chain codes is followed on extended keys**, as far as
there are levels below. -/
theorem exists_descendant_of_foldlM {path : List ChildNumber}
    (hdepth : k.depth.toNat + path.length ≤ 255)
    (h : path.foldlM KeyState.next? k.state = some s) :
    ∃ child, k.descendant path = .ok child ∧ child.state = s := by
  induction path generalizing k with
  | nil => exact ⟨k, rfl, Option.some.inj h⟩
  | cons c path ih =>
    rw [List.length_cons] at hdepth
    rw [List.foldlM_cons] at h
    obtain ⟨t, ht, h⟩ := Option.bind_eq_some_iff.mp h
    obtain ⟨child, hchild, rfl⟩ := exists_derive_of_next? (by omega) ht
    have hdeeper : child.depth.toNat = k.depth.toNat + 1 := by
      rcases k.derive_cases c with ⟨child', hchild', hlevel⟩ | hunusable | ⟨hlast, -⟩
      · rwa [Except.ok.inj (hchild.symm.trans hchild')]
      · cases hchild.symm.trans hunusable
      · cases hchild.symm.trans hlast
    obtain ⟨last, hlast, hstate⟩ := ih (by omega) h
    refine ⟨last, ?_, hstate⟩
    rw [descendant, List.foldlM_cons, hchild]
    exact hlast

end Xpriv

end WalletApi
