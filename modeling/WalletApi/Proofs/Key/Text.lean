import WalletApi.Key.Extended
import WalletApi.Proofs.Curve.Compressed
import WalletApi.Proofs.Text.Base58

/-!
# Reading the text of an extended key back

The seventy-eight bytes of an extended key have fixed places for their parts, so the parts can be
cut out again; Base58 and the form of the key itself are read back by the lemmas on them. Reading a
written key gives it back, with every component:

* `WalletApi.Xpriv.ofText_text` – for secret keys;
* `WalletApi.Xpub.ofText_text` – for public keys.
-/

namespace WalletApi

/-! ### The place in the tree -/

theorem Bytes.slice_of_eq_append {start n : ℕ} {bs : Bytes} (pre post : Bytes) (mid : Bytes.Sized n)
    (hbs : bs = pre ++ mid.val ++ post) (hpre : pre.length = start) :
    Bytes.slice start n bs = mid := by
  subst hbs hpre
  exact Subtype.ext (Bytes.val_slice_append pre mid.val post mid.property)

theorem ChildNumber.ofNat_toNat_bytes (c : ChildNumber) :
    UInt32.ofNat (Bytes.toNat c.bytes) = c.raw := by
  have hlt : c.raw.toNat < Bytes.capacity 4 := c.raw.toNat_lt
  rw [ChildNumber.bytes, Bytes.toNat_ofNat, Nat.mod_eq_of_lt hlt, UInt32.ofNat_toNat]

theorem ChildNumber.length_bytes (c : ChildNumber) : c.bytes.length = 4 := Bytes.length_ofNat _ _

theorem Lineage.length_bytes (l : Lineage) : l.bytes.length = 41 := by
  simp only [Lineage.bytes, List.length_cons, List.length_append, l.parent.property,
    l.child.length_bytes, l.chainCode.property]

/-- **The place in the tree is read back** from its forty-one bytes, whatever follows them. -/
theorem Lineage.ofBytes_bytes (l : Lineage) (post : Bytes) :
    Lineage.ofBytes l.network (l.bytes ++ post) = l := by
  -- The parts in front of each part have fixed lengths, which add up to its place.
  have hparent : Bytes.slice 1 4 (l.bytes ++ post) = l.parent :=
    Bytes.slice_of_eq_append [l.depth] (l.child.bytes ++ l.chainCode.val ++ post) _
      (by simp [Lineage.bytes]) rfl
  have hchild : Bytes.slice 5 4 (l.bytes ++ post) = ⟨l.child.bytes, l.child.length_bytes⟩ :=
    Bytes.slice_of_eq_append (l.depth :: l.parent.val) (l.chainCode.val ++ post) _
      (by simp [Lineage.bytes]) (by rw [List.length_cons, l.parent.property])
  have hchain : Bytes.slice 9 32 (l.bytes ++ post) = l.chainCode :=
    Bytes.slice_of_eq_append (l.depth :: (l.parent.val ++ l.child.bytes)) post _
      (by simp [Lineage.bytes])
      (by rw [List.length_cons, List.length_append, l.parent.property, l.child.length_bytes])
  rw [Lineage.ofBytes, hparent, hchild, hchain]
  simp only [ChildNumber.ofNat_toNat_bytes]
  rfl

/-! ### The version -/

/-- The network and the bytes after the version are read back, where the versions of the two
networks are different. -/
theorem readVersioned_encodeChecked {version : Network → Bytes}
    (hlen : ∀ network, (version network).length = 4) (hne : version .test ≠ version .main)
    (network : Network) {bs : Bytes} (h : bs.length = 74) :
    readVersioned version (Base58.encodeChecked (version network ++ bs)) = .ok (network, bs) := by
  have hall : (version network ++ bs).length = 78 := by rw [List.length_append, hlen, h]
  have htake : (version network ++ bs).take 4 = version network := List.take_left' (hlen network)
  have hdrop : (version network ++ bs).drop 4 = bs := List.drop_left' (hlen network)
  rw [readVersioned, Base58.decodeChecked?_encodeChecked]
  simp only [hall, htake, hdrop, if_true]
  cases network with
  | main => rw [if_pos rfl]
  | test => rw [if_neg hne, if_pos rfl]

/-! ### Keys -/

theorem Xpriv.length_version (network : Network) : (Xpriv.version network).length = 4 := by
  cases network <;> rfl

theorem Xpub.length_version (network : Network) : (Xpub.version network).length = 4 := by
  cases network <;> rfl

/-- **Reading the text of a secret extended key gives the key back.** -/
theorem Xpriv.ofText_text (k : Xpriv) : Xpriv.ofText k.text = .ok k := by
  have hlen : (k.toLineage.bytes ++ 0 :: k.key.bytes).length = 74 := by
    rw [List.length_append, k.toLineage.length_bytes, List.length_cons, k.key.length_bytes]
  have hdrop : (k.toLineage.bytes ++ 0 :: k.key.bytes).drop 42 = k.key.bytes := by
    have hpre : (k.toLineage.bytes ++ [0]).length = 42 := by
      rw [List.length_append, k.toLineage.length_bytes]
      rfl
    rw [List.append_cons, List.drop_left' hpre]
  rw [Xpriv.ofText, Xpriv.text, String.toList_ofList, Base58.encodeChecked, Base58.trim_encode,
    ← Base58.encodeChecked, List.append_assoc,
    readVersioned_encodeChecked Xpriv.length_version (by decide) k.network hlen]
  simp only [hdrop, SecretKey.ofBytes?_bytes, Lineage.ofBytes_bytes]

/-- **Reading the text of a public extended key gives the key back.** -/
theorem Xpub.ofText_text (k : Xpub) : Xpub.ofText k.text = .ok k := by
  have hlen : (k.toLineage.bytes ++ k.key.compressed).length = 74 := by
    rw [List.length_append, k.toLineage.length_bytes, k.key.length_compressed]
  have hdrop : (k.toLineage.bytes ++ k.key.compressed).drop 41 = k.key.compressed :=
    List.drop_left' k.toLineage.length_bytes
  rw [Xpub.ofText, Xpub.text, String.toList_ofList, Base58.encodeChecked, Base58.trim_encode,
    ← Base58.encodeChecked, List.append_assoc,
    readVersioned_encodeChecked Xpub.length_version (by decide) k.network hlen]
  simp only [hdrop, PublicKey.ofBytes?_compressed, Lineage.ofBytes_bytes]

end WalletApi
