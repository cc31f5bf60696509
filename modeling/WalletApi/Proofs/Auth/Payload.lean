import WalletApi.Auth.Payload
import WalletApi.Proofs.Results

/-!
# What a payload holds

A payload is built in a few steps that may fail: a nonce is drawn, the key of the nonce is derived
where the mode asks for one, and the message is signed. The lemmas here take a payload that was
built apart again (`WalletApi.AuthPayload.forAccessKey_eq_ok`,
`WalletApi.AuthPayload.forXpriv_eq_ok`): what its fields are and which key has signed which message.
-/

namespace WalletApi

namespace AuthPayload

/-- The nonce that random bytes are written as. -/
def nonceText (bytes : Bytes.Sized 32) : String := String.ofList (Hex.encode bytes.val)

theorem freshNonce_eq_ok {moment : Moment} {nonce : String} :
    freshNonce moment = .ok nonce ↔
      ∃ bytes, moment.random = .ok bytes ∧ nonceText bytes = nonce := by
  rw [freshNonce]
  cases moment.random with
  | error reason => simp
  | ok bytes => simp [nonceText]

theorem signMessage_eq_ok {key : SecretKey} {message σ : String} :
    signMessage key message = .ok σ ↔ key.signText message = .ok σ := mapError_eq_ok

theorem signed_eq_ok {identity : AuthIdentity} {key : SecretKey} {body : Bytes} {nonce : String}
    {time : Int} {p : AuthPayload} :
    signed identity key body nonce time = .ok p ↔
      ∃ σ, key.signText (authMessage identity.text (hashBody body) nonce time) = .ok σ ∧
        ⟨identity, hashBody body, nonce, time, σ⟩ = p := by
  rw [signed, bind_eq_ok]
  simp only [signMessage_eq_ok, pure, Except.pure, Except.ok.injEq]

/-- **The payload of an access key**: the key itself has signed, under its public text. -/
theorem forAccessKey_eq_ok {key : SecretKey} {body : Bytes} {moment : Moment} {p : AuthPayload} :
    forAccessKey key body moment = .ok p ↔
      ∃ bytes σ, moment.random = .ok bytes ∧
        key.signText (authMessage key.publicText (hashBody body) (nonceText bytes) moment.time)
          = .ok σ ∧
        ⟨.accessKey key.publicText, hashBody body, nonceText bytes, moment.time, σ⟩ = p := by
  rw [forAccessKey, bind_eq_ok]
  constructor
  · rintro ⟨nonce, hnonce, hsigned⟩
    obtain ⟨bytes, hbytes, rfl⟩ := freshNonce_eq_ok.mp hnonce
    obtain ⟨σ, hσ, rfl⟩ := signed_eq_ok.mp hsigned
    exact ⟨bytes, σ, hbytes, hσ, rfl⟩
  · rintro ⟨bytes, σ, hbytes, hσ, rfl⟩
    exact ⟨_, freshNonce_eq_ok.mpr ⟨bytes, hbytes, rfl⟩, signed_eq_ok.mpr ⟨σ, hσ, rfl⟩⟩

/-- **The payload of a master key**: the child that the nonce addresses has signed, under the text
of the master's public half. -/
theorem forXpriv_eq_ok {master : Xpriv} {body : Bytes} {moment : Moment} {p : AuthPayload} :
    forXpriv master body moment = .ok p ↔
      ∃ bytes child σ, moment.random = .ok bytes ∧
        master.signingKey (nonceText bytes) = .ok child ∧
        child.key.signText
            (authMessage master.publicHalf.text (hashBody body) (nonceText bytes) moment.time)
          = .ok σ ∧
        ⟨.xpub master.publicHalf.text, hashBody body, nonceText bytes, moment.time, σ⟩ = p := by
  rw [forXpriv, bind_eq_ok]
  constructor
  · rintro ⟨nonce, hnonce, h⟩
    obtain ⟨bytes, hbytes, rfl⟩ := freshNonce_eq_ok.mp hnonce
    obtain ⟨child, hchild, hsigned⟩ := bind_eq_ok.mp h
    obtain ⟨σ, hσ, rfl⟩ := signed_eq_ok.mp hsigned
    exact ⟨bytes, child, σ, hbytes, mapError_eq_ok.mp hchild, hσ, rfl⟩
  · rintro ⟨bytes, child, σ, hbytes, hchild, hσ, rfl⟩
    exact ⟨_, freshNonce_eq_ok.mpr ⟨bytes, hbytes, rfl⟩,
      bind_eq_ok.mpr ⟨child, mapError_eq_ok.mpr hchild, signed_eq_ok.mpr ⟨σ, hσ, rfl⟩⟩⟩

end AuthPayload

end WalletApi
