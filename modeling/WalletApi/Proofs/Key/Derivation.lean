import WalletApi.Auth.Error
import WalletApi.Proofs.Curve.Order
import WalletApi.Proofs.Results

/-!
# Private and public derivation agree

A client derives the key of a nonce from its secret master key, and a verifier derives a public key
from the public half of the same master. One step of the two derivations differs in the key alone:
the secret side adds a number to a number, the public side adds the multiple of the base point to a
point, and the public key of a sum is the sum of the public keys. Everything else that a step reads,
the parent's public key, the chain code and the depth, belongs to the public half, so the two sides
meet the same faults too.

A hardened step has no public side, and where a path has one the public derivation stops. So along
an arbitrary path the public side follows the secret one up to the first hardened step:

* `WalletApi.Xpriv.derive_publicHalf` – one step;
* `WalletApi.Xpriv.descendant_publicHalf` – a path;
* `WalletApi.Xpriv.verifyingKey_publicHalf` – the keys of a nonce.
-/

namespace WalletApi

/-- A step that a public key can take. -/
def ChildNumber.isOpen (c : ChildNumber) : Bool := !c.isHardened

/-! ### One step -/

/-- **The child of the public half is the public half of the child**, for a step that is not
hardened; and where there is none, the fault is the same. -/
theorem Xpriv.derive_publicHalf (k : Xpriv) {c : ChildNumber} (hc : c.isHardened = false) :
    k.publicHalf.derive c = (k.derive c).map Xpriv.publicHalf := by
  rw [Xpub.derive, Xpriv.derive, hc]
  simp only [Bool.false_eq_true, if_false, Xpriv.publicHalf]
  -- Both sides hash the same bytes, so they share the number that is added and the chain code.
  cases SecretKey.ofBytes? ((Hmac.sha512 k.chainCode.val
      (k.key.publicKey.compressed ++ c.bytes)).take 32) with
  | none => rfl
  | some tweak =>
    simp only [PublicKey.ofPoint?_add]
    cases SecretKey.ofNat? ((tweak.value + k.key.value) % groupOrder) with
    | none => rfl
    | some key =>
      simp only [Option.map_some]
      cases k.toLineage.below? k.key.publicKey c
        (Hmac.sha512 k.chainCode.val (k.key.publicKey.compressed ++ c.bytes)) with
      | none => rfl
      | some lineage => rfl

theorem Xpub.derive_hardened (k : Xpub) {c : ChildNumber} (hc : c.isHardened = true) :
    k.derive c = .error .hardenedFromPublic := by
  rw [Xpub.derive, if_pos hc]

/-! ### A path -/

/-- **The public half follows a path up to its first hardened step**, where it stops; the faults of
the secret derivation in front of that step come first. -/
theorem Xpriv.descendant_publicHalf (m : Xpriv) (path : List ChildNumber) :
    m.publicHalf.descendant path =
      (m.descendant (path.takeWhile ChildNumber.isOpen) >>= fun c =>
        if path.all ChildNumber.isOpen then .ok c.publicHalf else .error .hardenedFromPublic) := by
  induction path generalizing m with
  | nil => rfl
  | cons c path ih =>
    rw [Xpub.descendant, List.foldlM_cons]
    cases hc : c.isHardened with
    | true =>
      -- The public side stops here, and so does the front of the path that is followed.
      rw [Xpub.derive_hardened _ hc]
      simp only [ChildNumber.isOpen, List.takeWhile_cons, List.all_cons, hc, Bool.not_true,
        Bool.false_and, Bool.false_eq_true, if_false]
      rfl
    | false =>
      have hopen : c.isOpen = true := by rw [ChildNumber.isOpen, hc]; rfl
      rw [Xpriv.derive_publicHalf m hc, List.takeWhile_cons_of_pos hopen, List.all_cons, hopen,
        Bool.true_and, Xpriv.descendant, List.foldlM_cons]
      cases m.derive c with
      | error fault => rfl
      | ok child => exact ih child

/-- A path has a public descendant exactly when it has a secret one and no hardened step. -/
theorem Xpriv.descendant_publicHalf_eq_ok (m : Xpriv) (path : List ChildNumber) (C : Xpub) :
    m.publicHalf.descendant path = .ok C ↔
      (∀ c ∈ path, c.isHardened = false) ∧ ∃ c, m.descendant path = .ok c ∧ C = c.publicHalf := by
  have hall : path.all ChildNumber.isOpen = true ↔ ∀ c ∈ path, c.isHardened = false := by
    simp [ChildNumber.isOpen]
  rw [Xpriv.descendant_publicHalf, bind_eq_ok, ← hall]
  by_cases hopen : path.all ChildNumber.isOpen = true
  · rw [List.takeWhile_eq_self_iff.mpr (List.all_eq_true.mp hopen)]
    simp only [hopen, if_true, true_and, Except.ok.injEq, eq_comm]
  · simp only [hopen, if_false, reduceCtorEq, and_false, exists_false, false_and]

/-! ### The keys of a nonce -/

/-- The path of a nonce that has one is made of its groups of digits. -/
theorem ChildNumber.eq_of_ofNonce {nonce : String} {path : List ChildNumber}
    (h : ChildNumber.ofNonce nonce = .ok path) :
    path = (ChildNumber.groups nonce.toList).map ChildNumber.ofGroup := by
  simp only [ChildNumber.ofNonce] at h
  split at h
  · exact absurd h (by simp)
  · split at h
    · exact absurd h (by simp)
    · exact (Except.ok.inj h).symm

/-- A nonce that is empty or holds anything but hexadecimal digits addresses nothing. -/
theorem ChildNumber.ofNonce_malformed {nonce : String}
    (h : nonce.toList = [] ∨ ∃ c ∈ nonce.toList, Hex.value? c = none) :
    ∃ fault, ChildNumber.ofNonce nonce = .error fault := by
  rw [ChildNumber.ofNonce]
  by_cases hempty : nonce.toList = []
  · exact ⟨_, if_pos hempty⟩
  · obtain ⟨c, hmem, hc⟩ := h.resolve_left hempty
    cases hfind : nonce.toList.find? fun c => (Hex.value? c).isNone with
    | some bad => exact ⟨.notHex bad, if_neg hempty⟩
    | none => exact absurd (List.find?_eq_none.mp hfind c hmem) (by simp [hc])

section Keys

variable (m : Xpriv) {nonce : String}

theorem Xpriv.signingKey_of_path {path : List ChildNumber}
    (h : ChildNumber.ofNonce nonce = .ok path) :
    m.signingKey nonce = (m.descendant path).mapError AuthError.derivation := by
  rw [Xpriv.signingKey, Xpriv.oneTimeKey, h]
  rfl

theorem Xpub.verifyingKey_of_path (m : Xpub) {path : List ChildNumber}
    (h : ChildNumber.ofNonce nonce = .ok path) :
    m.verifyingKey nonce = (m.descendant path).mapError AuthError.derivation := by
  rw [Xpub.verifyingKey, Xpub.oneTimeKey, h]
  rfl

/-- A nonce that addresses nothing is refused by both sides for the same reason. -/
theorem Xpriv.keys_of_fault {fault : DerivationFault}
    (h : ChildNumber.ofNonce nonce = .error fault) :
    m.signingKey nonce = .error (.derivation fault) ∧
      m.publicHalf.verifyingKey nonce = .error (.derivation fault) := by
  rw [Xpriv.signingKey, Xpriv.oneTimeKey, Xpub.verifyingKey, Xpub.oneTimeKey, h]
  exact ⟨rfl, rfl⟩

/-- A verifier who holds the public half gets a key exactly when the client does and no group of the
nonce is hardened, and this key is the public half of the client's. -/
theorem Xpriv.verifyingKey_eq_ok (C : Xpub) :
    m.publicHalf.verifyingKey nonce = .ok C ↔
      (∀ digits ∈ ChildNumber.groups nonce.toList,
          (ChildNumber.ofGroup digits).isHardened = false) ∧
        ∃ c, m.signingKey nonce = .ok c ∧ C = c.publicHalf := by
  cases h : ChildNumber.ofNonce nonce with
  | error fault =>
    obtain ⟨hsign, hverify⟩ := m.keys_of_fault h
    simp [hsign, hverify]
  | ok path =>
    rw [Xpub.verifyingKey_of_path _ h, Xpriv.signingKey_of_path _ h, mapError_eq_ok,
      Xpriv.descendant_publicHalf_eq_ok, ChildNumber.eq_of_ofNonce h, List.forall_mem_map]
    simp only [mapError_eq_ok]

/-- **Private and public derivation commute.** For every nonce the verifier's key is the public half
of the client's, unless a group of the nonce is hardened, and then there is none; a side that fails
reports a fault of the derivation, a malformed nonce the same on both sides; and a master key that
is public only signs nothing. -/
theorem Xpriv.verifyingKey_publicHalf (m : Xpriv) (nonce : String) :
    (∀ C, m.publicHalf.verifyingKey nonce = .ok C ↔
      (∀ digits ∈ ChildNumber.groups nonce.toList,
          (ChildNumber.ofGroup digits).isHardened = false) ∧
        ∃ c, m.signingKey nonce = .ok c ∧ C = c.publicHalf) ∧
    (∀ e, m.signingKey nonce = .error e ∨ m.publicHalf.verifyingKey nonce = .error e →
      ∃ fault, e = .derivation fault) ∧
    (nonce.toList = [] ∨ (∃ c ∈ nonce.toList, Hex.value? c = none) →
      ∃ fault, m.signingKey nonce = .error (.derivation fault) ∧
        m.publicHalf.verifyingKey nonce = .error (.derivation fault)) ∧
    (ExtendedKey.secret m).signingKey nonce = m.signingKey nonce ∧
    ∀ k : Xpub, (ExtendedKey.shared k).signingKey nonce = .error (.derivation .noSecretHalf) := by
  refine ⟨m.verifyingKey_eq_ok, ?_, ?_, rfl, fun _ => rfl⟩
  · rintro e (h | h)
    · obtain ⟨fault, -, rfl⟩ := mapError_eq_error.mp h
      exact ⟨fault, rfl⟩
    · obtain ⟨fault, -, rfl⟩ := mapError_eq_error.mp h
      exact ⟨fault, rfl⟩
  · intro hmalformed
    obtain ⟨fault, hfault⟩ := ChildNumber.ofNonce_malformed hmalformed
    exact ⟨fault, m.keys_of_fault hfault⟩

end Keys

end WalletApi
