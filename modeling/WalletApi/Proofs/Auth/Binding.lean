import WalletApi.Proofs.Auth.Message

/-!
# A signature binds one key and one digest

Verification does not check the equation of a signature. It recovers a key from the signature and
the text, and compares, so what a written signature is good for is what recovery gives.

For the text that was signed, this is the public key of the signer and no other. For another text it
is this key exactly when the digest, as a number modulo the order of the group, is that of the text
that was signed. `WalletApi.SecretKey.sign_binds` puts both together with the form of the signature.
-/

namespace WalletApi

/-- The first byte of the compact form is one of the four that announce a compressed public key. -/
theorem Signature.exists_head?_compact (σ : Signature) :
    ∃ b, σ.compact.head? = some b ∧ 31 ≤ b.toNat ∧ b.toNat ≤ 34 := by
  have hflags := σ.flags_lt
  have hhead : (UInt8.ofNat (compactBase + σ.flags)).toNat = 31 + σ.flags := by
    rw [UInt8.toNat_ofNat', compactBase]
    omega
  exact ⟨_, rfl, by omega, by omega⟩

/-- **A signature verifies under exactly the signing key and for exactly the signed digest.** Where
a signature of the digest is found, it is handed out as sixty-five bytes; in Base64 it verifies the
text under the public key of the signer alone, and under this key it verifies the texts whose
digests are the same number modulo the order of the group. -/
theorem SecretKey.sign_binds (k : SecretKey) (text : String)
    (hfound : (Signature.sign? k (SignedMessage.digest text)).isSome = true) :
    ∃ bs, k.sign text = .ok bs ∧ bs.length = 65 ∧
      (∃ b, bs.head? = some b ∧ 31 ≤ b.toNat ∧ b.toNat ≤ 34) ∧
      k.signText text = .ok (String.ofList (Base64.encode bs)) ∧
      (∀ P : PublicKey,
        P.verifies text (String.ofList (Base64.encode bs)) = true ↔ P = k.publicKey) ∧
      ∀ other : String, k.publicKey.verifies other (String.ofList (Base64.encode bs)) = true ↔
        (SignedMessage.digest other).toNat ≡ (SignedMessage.digest text).toNat
          [MOD groupOrder] := by
  obtain ⟨σ, hσ⟩ := Option.isSome_iff_exists.mp hfound
  have hmade := Signature.madeBy_of_sign? hσ
  refine ⟨σ.compact, SecretKey.sign_of_some hσ, σ.length_compact, σ.exists_head?_compact,
    SecretKey.signText_eq_ok.mpr ⟨σ, hσ, rfl⟩, fun P => ?_, fun other => ?_⟩
  · rw [PublicKey.verifies_iff hmade.r_lt hmade.s_lt, Signature.recover?_sign? hσ,
      Option.some.injEq, eq_comm]
  · rw [PublicKey.verifies_iff hmade.r_lt hmade.s_lt, hmade.recover?_eq_some_iff,
      ZMod.natCast_eq_natCast_iff, Signature.scalar, Signature.scalar]
    exact ⟨fun h => ((Nat.mod_modEq _ _).symm.trans h).trans (Nat.mod_modEq _ _),
      fun h => ((Nat.mod_modEq _ _).trans h).trans (Nat.mod_modEq _ _).symm⟩

/-- The secret key two. -/
def SecretKey.two : SecretKey := ⟨2, by decide, by decide⟩

/-- The secret key two signs a text beyond ASCII, and the signature is none of another text. -/
theorem SecretKey.sign_binds_two :
    (Signature.sign? two (SignedMessage.digest "10 € für Zoë")).isSome = true ∧
      ∃ bs, two.sign "10 € für Zoë" = .ok bs ∧ bs.length = 65 ∧
        (∀ P : PublicKey, P.verifies "10 € für Zoë" (String.ofList (Base64.encode bs)) = true ↔
          P = two.publicKey) ∧
        two.publicKey.verifies "" (String.ofList (Base64.encode bs)) = false := by
  have hfound : (Signature.sign? two (SignedMessage.digest "10 € für Zoë")).isSome = true := by
    rw [SignedMessage.digest_eq]
    exact Signature.isSome_sign?_of_draw (by decide +kernel)
  obtain ⟨bs, hsign, hlength, -, -, hkey, htext⟩ := SecretKey.sign_binds two "10 € für Zoë" hfound
  have hother : ¬ (SignedMessage.digest "").toNat ≡ (SignedMessage.digest "10 € für Zoë").toNat
      [MOD groupOrder] := by
    rw [SignedMessage.digest_eq, SignedMessage.digest_eq, Nat.ModEq]
    decide +kernel
  exact ⟨hfound, bs, hsign, hlength, hkey, Bool.eq_false_iff.mpr (mt (htext "").mp hother)⟩

end WalletApi
