import WalletApi.Auth.Error
import WalletApi.Proofs.Key.Width

/-!
# Each extended key has one text

The parts of the seventy-eight bytes of an extended key are kept as they are read: version, place in
the tree and, for a public key, the key itself. Only the byte in front of a secret key is not looked
at. So a public extended key is written again as the text that it was read from
(`WalletApi.Xpub.text_of_ofText`). The versions of the two kinds are different, and no text is read
as both (`WalletApi.Xpub.ofText_ne_of_xpriv`); so a text is read as a key of either kind exactly
where one of the two readers takes it (`WalletApi.ExtendedKey.read_eq_ok_iff`).
-/

namespace WalletApi

/-! ### The version -/

/-- **What is read after a version is what was written after it.** -/
theorem readVersioned_eq_ok_iff {version : Network → Bytes}
    (hlen : ∀ network, (version network).length = 4) (hne : version .test ≠ version .main)
    {cs : List Char} {network : Network} {bs : Bytes} :
    readVersioned version cs = .ok (network, bs) ↔
      bs.length = 74 ∧ cs = Base58.encodeChecked (version network ++ bs) := by
  constructor
  · intro h
    rw [readVersioned] at h
    split at h
    · cases h
    · next whole hwhole =>
      have hcs := Base58.decodeChecked?_eq_some_iff.mp hwhole
      split at h
      · next hwidth =>
        have hdrop : (whole.drop 4).length = 74 := by rw [List.length_drop, hwidth]
        have hread : ∀ {network' : Network}, whole.take 4 = version network' →
            Except.ok (ε := ExtendedFault) (network', whole.drop 4) = .ok (network, bs) →
            bs.length = 74 ∧ cs = Base58.encodeChecked (version network ++ bs) := by
          intro network' hversion hok
          obtain ⟨rfl, rfl⟩ := Prod.ext_iff.mp (Except.ok.inj hok)
          exact ⟨hdrop, by rw [← hversion, List.take_append_drop, hcs]⟩
        split at h
        · next hmain => exact hread hmain h
        · split at h
          · next htest => exact hread htest h
          · cases h
      · cases h
  · rintro ⟨hwidth, rfl⟩
    exact readVersioned_encodeChecked hlen hne network hwidth

theorem Bytes.val_slice {start n : ℕ} {bs : Bytes} (h : start + n ≤ bs.length) :
    (Bytes.slice start n bs).val = (bs.drop start).take n := by
  have hlen : ((bs.drop start).take n).length = n := by
    rw [List.length_take, List.length_drop]
    omega
  change (bs.drop start).take n ++ List.replicate (n - ((bs.drop start).take n).length) 0 = _
  rw [hlen, Nat.sub_self, List.replicate_zero, List.append_nil]

theorem ChildNumber.bytes_ofNat {bs : Bytes} (h : bs.length = 4) :
    ChildNumber.bytes ⟨UInt32.ofNat bs.toNat⟩ = bs := by
  have hlt : bs.toNat < 2 ^ 32 := by
    have hbound := bs.toNat_lt
    rw [h] at hbound
    exact hbound
  rw [ChildNumber.bytes, UInt32.toNat_ofNat', Nat.mod_eq_of_lt hlt, Bytes.ofNat_toNat h]

/-- **The place in the tree keeps the bytes that it is read from.** -/
theorem Lineage.bytes_ofBytes (network : Network) {bs : Bytes} (h : 41 ≤ bs.length) :
    (Lineage.ofBytes network bs).bytes = bs.take 41 := by
  match bs, h with
  | depth :: rest, h =>
    rw [List.length_cons] at h
    have hparts : rest.take 40 = rest.take 4 ++ (rest.drop 4).take 4 ++ (rest.drop 8).take 32 := by
      rw [← List.take_add, ← List.take_add]
    rw [Lineage.bytes, Lineage.ofBytes, List.take_succ_cons, hparts]
    simp only
    rw [ChildNumber.bytes_ofNat (Bytes.slice 5 4 (depth :: rest)).property,
      Bytes.val_slice (by rw [List.length_cons]; omega),
      Bytes.val_slice (by rw [List.length_cons]; omega),
      Bytes.val_slice (by rw [List.length_cons]; omega)]
    rfl

/-! ### Public keys -/

/-- **A public extended key is written as the text that it was read from**, without the blanks at
its ends. -/
theorem Xpub.text_of_ofText {s : String} {k : Xpub} (h : Xpub.ofText s = .ok k) :
    k.text = String.ofList (Text.trim s.toList) := by
  rw [Xpub.ofText] at h
  split at h
  · cases h
  · next network bs hread =>
    split at h
    · cases h
    · next key hkey =>
      obtain rfl := Except.ok.inj h
      obtain ⟨hlen, htext⟩ :=
        (readVersioned_eq_ok_iff Xpub.length_version (by decide)).mp hread
      have hdrop : (bs.drop 41).length = 33 := by rw [List.length_drop, hlen]
      have hnetwork : (Lineage.ofBytes network bs).network = network := rfl
      rw [Xpub.text, PublicKey.compressed_of_ofBytes? hdrop hkey, hnetwork,
        Lineage.bytes_ofBytes network (by omega), List.append_assoc, List.take_append_drop, ← htext]

/-! ### Both kinds -/

/-- The versions of the two kinds of keys are different. -/
theorem version_ne (network network' : Network) :
    Xpriv.version network ≠ Xpub.version network' := by
  cases network <;> cases network' <;> decide

/-- A text that is read as a secret extended key begins with a version of such keys. -/
theorem Xpriv.exists_encodeChecked {s : String} {x : Xpriv} (h : Xpriv.ofText s = .ok x) :
    ∃ network bs,
      Text.trim s.toList = Base58.encodeChecked (Xpriv.version network ++ bs) := by
  rw [Xpriv.ofText] at h
  split at h
  · cases h
  · next network bs hread =>
    have htext := (readVersioned_eq_ok_iff Xpriv.length_version (by decide)).mp hread
    exact ⟨network, bs, htext.2⟩

/-- **No text is read as a key of both kinds.** -/
theorem Xpub.ofText_ne_of_xpriv {s : String} {x : Xpriv} (h : Xpriv.ofText s = .ok x) (y : Xpub) :
    Xpub.ofText s ≠ .ok y := by
  intro hy
  obtain ⟨network, bs, hsecret⟩ := Xpriv.exists_encodeChecked h
  have hshared := Xpub.text_of_ofText hy
  rw [Xpub.text, hsecret, String.ofList_inj, List.append_assoc] at hshared
  -- Checked Base58 is read back, so the two byte strings are the same, and so are their versions.
  have hbytes := congrArg Base58.decodeChecked? hshared
  rw [Base58.decodeChecked?_encodeChecked, Base58.decodeChecked?_encodeChecked,
    Option.some.injEq] at hbytes
  have hversions := congrArg (List.take 4) hbytes
  rw [List.take_left' (Xpub.length_version _),
    List.take_left' (Xpriv.length_version _)] at hversions
  exact version_ne _ _ hversions.symm

namespace ExtendedKey

variable {s : String} {k : ExtendedKey}

theorem ofXpriv_eq_ok_iff : ofXpriv s = .ok k ↔ ∃ x, Xpriv.ofText s = .ok x ∧ k = .secret x := by
  rw [ofXpriv]
  cases Xpriv.ofText s with
  | error fault => simp only [reduceCtorEq, false_and, exists_false]
  | ok x => simp only [Except.ok.injEq, exists_eq_left', eq_comm]

theorem ofXpub_eq_ok_iff : ofXpub s = .ok k ↔ ∃ y, Xpub.ofText s = .ok y ∧ k = .shared y := by
  rw [ofXpub]
  cases Xpub.ofText s with
  | error fault => simp only [reduceCtorEq, false_and, exists_false]
  | ok y => simp only [Except.ok.injEq, exists_eq_left', eq_comm]

theorem ofXpub_ne_of_ofXpriv (h : ofXpriv s = .ok k) (k' : ExtendedKey) : ofXpub s ≠ .ok k' := by
  intro h'
  obtain ⟨x, hx, -⟩ := ofXpriv_eq_ok_iff.mp h
  obtain ⟨y, hy, -⟩ := ofXpub_eq_ok_iff.mp h'
  exact Xpub.ofText_ne_of_xpriv hx y hy

/-- **A text is read as a key of either kind exactly where it is read as one of the two.** -/
theorem read_eq_ok_iff : read s = .ok k ↔ ofXpriv s = .ok k ∨ ofXpub s = .ok k := by
  rw [ofXpriv_eq_ok_iff, ofXpub_eq_ok_iff, read, ofText]
  cases hsecret : Xpriv.ofText s with
  | ok x =>
    have hshared : ¬ ∃ y, Xpub.ofText s = .ok y ∧ k = .shared y := fun h =>
      Xpub.ofText_ne_of_xpriv hsecret h.choose h.choose_spec.1
    rw [or_iff_left hshared]
    simp only [Except.ok.injEq, exists_eq_left', eq_comm]
  | error asSecret =>
    simp only [reduceCtorEq, false_and, exists_false, false_or]
    cases Xpub.ofText s with
    | ok y => simp only [Except.ok.injEq, exists_eq_left', eq_comm]
    | error asShared => simp only [reduceCtorEq, false_and, exists_false]

end ExtendedKey

end WalletApi
