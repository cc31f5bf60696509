import WalletApi.Auth.Message
import WalletApi.Proofs.Curve.Signature
import WalletApi.Proofs.Results

/-!
# Signed messages verify

A signer recovers its key from a signature before handing it out, and this never fails
(`WalletApi.SecretKey.sign_of_some`). What is handed out, written in Base64 and read back, verifies
under the key that recovery gives (`WalletApi.PublicKey.verifies_iff`), so it passes the
verification by the public key of the signer (`WalletApi.PublicKey.verifies_of_signText`).
-/

namespace WalletApi

/-- The digest that is signed for a text, from its characters and on numbers. -/
def SignedMessage.digestOn (cs : List Char) : Bytes :=
  let bytes := Utf8.encode cs
  Sha256.design.hash (Sha256.design.hash (magic ++ length bytes.length ++ bytes))

theorem SignedMessage.digest_eq (text : String) : digest text = digestOn text.toList := by
  simp only [digest, Sha256.double, Sha256.hash_eq, digestOn]

/-- **A signature that was made is handed out**: it always leads back to the key. -/
theorem SecretKey.sign_of_some {k : SecretKey} {text : String} {σ : Signature}
    (h : Signature.sign? k (SignedMessage.digest text) = some σ) : k.sign text = .ok σ.compact := by
  rw [SecretKey.sign, h, SecretKey.release, if_pos (Signature.recover?_sign? h)]

theorem SecretKey.sign_of_none {k : SecretKey} {text : String}
    (h : Signature.sign? k (SignedMessage.digest text) = none) :
    k.sign text = .error .noSignature := by
  rw [SecretKey.sign, h, SecretKey.release]

/-- The text of a signature is that of one which was made. -/
theorem SecretKey.signText_eq_ok {k : SecretKey} {text t : String} :
    k.signText text = .ok t ↔ ∃ σ, Signature.sign? k (SignedMessage.digest text) = some σ ∧
      String.ofList (Base64.encode σ.compact) = t := by
  rw [SecretKey.signText, map_eq_ok]
  constructor
  · rintro ⟨bs, hbs, ht⟩
    cases h : Signature.sign? k (SignedMessage.digest text) with
    | none =>
      rw [SecretKey.sign_of_none h] at hbs
      exact nomatch hbs
    | some σ =>
      rw [SecretKey.sign_of_some h] at hbs
      obtain rfl := Except.ok.inj hbs
      exact ⟨σ, rfl, ht⟩
  · rintro ⟨σ, hσ, ht⟩
    exact ⟨σ.compact, SecretKey.sign_of_some hσ, ht⟩

/-- **A written signature verifies under the key that is recovered from it**, and no other. -/
theorem PublicKey.verifies_iff {σ : Signature} (hr : σ.r < groupOrder) (hs : σ.s < groupOrder)
    (P : PublicKey) (text : String) :
    P.verifies text (String.ofList (Base64.encode σ.compact)) = true ↔
      σ.recover? (SignedMessage.digest text) = some P := by
  rw [PublicKey.verifies, String.toList_ofList, Base64.decode?_encode, Option.bind_some,
    Signature.ofCompact?_compact hr hs]
  exact decide_eq_true_iff

/-- **A signed text verifies** under the key that has signed it. -/
theorem PublicKey.verifies_of_signText {k : SecretKey} {text t : String}
    (h : k.signText text = .ok t) : k.publicKey.verifies text t = true := by
  obtain ⟨σ, hσ, rfl⟩ := SecretKey.signText_eq_ok.mp h
  have hmade := Signature.madeBy_of_sign? hσ
  rw [PublicKey.verifies_iff hmade.r_lt hmade.s_lt]
  exact Signature.recover?_sign? hσ

end WalletApi
