import WalletApi.Proofs.Auth.Verification
import WalletApi.Proofs.Key.Depth

/-!
# When a request cannot be authenticated

A nonce addresses a key eight levels below the master key, so a master key that has eight levels
below it always reaches the key of the nonce, and the headers of a payload never fail their check.
What is left are the random bytes, and two events of the arithmetic that are not met in practice: a
digest that is no usable number for a derivation, and a signature for which no nonce is usable
(`WalletApi.AuthError.isArithmetic`). Apart from these a request is authenticated exactly when the
mode does not sign or there are random bytes (`WalletApi.Authenticator.exists_append_iff`); the
secret key has no part in it.
-/

namespace WalletApi

/-- **An event of the arithmetic of keys and signatures**: a number out of range, which is met about
once in `2 ^ 127` times. -/
def AuthError.isArithmetic (e : AuthError) : Bool :=
  match e.root with
  | .derivation fault => fault == .unusableDigest
  | .signing _ => true
  | _ => false

/-- An authenticator that signs with children of a master key has this many levels below it. -/
def Authenticator.HasLevels (a : Authenticator) (n : ℕ) : Prop :=
  ∀ master, a = .extendedKey master → master.depth.toNat + n ≤ 255

/-- A nonce addresses a key on the eighth level below. -/
theorem ChildNumber.exists_ofNonce_nonceText (bytes : Bytes.Sized 32) :
    ∃ path, ChildNumber.ofNonce (AuthPayload.nonceText bytes) = .ok path ∧ path.length = 8 := by
  obtain ⟨hlength, -⟩ := AuthPayload.groups_nonceText bytes
  have hne : (AuthPayload.nonceText bytes).toList ≠ [] := by
    intro hempty
    rw [hempty, ChildNumber.groups_nil] at hlength
    exact nomatch hlength
  have hdigits : (AuthPayload.nonceText bytes).toList.find?
      (fun c => (Hex.value? c).isNone) = none := by
    refine List.find?_eq_none.mpr fun c hc => ?_
    obtain ⟨n, rfl⟩ := AuthPayload.exists_digit_of_mem_nonceText bytes hc
    have hdigit : ∀ n : Fin 16, (Hex.value? (Hex.digit n.val)).isNone = false := by decide +kernel
    rw [hdigit n]
    exact Bool.false_ne_true
  refine ⟨(ChildNumber.groups (AuthPayload.nonceText bytes).toList).map ChildNumber.ofGroup, ?_,
    by rw [List.length_map, hlength]⟩
  rw [ChildNumber.ofNonce, if_neg hne, hdigits]

/-- The key of a nonce is there if the master key has eight levels below it. -/
theorem Xpriv.signingKey_cases {master : Xpriv} (hlevels : master.depth.toNat + 8 ≤ 255)
    (bytes : Bytes.Sized 32) :
    (∃ child, master.signingKey (AuthPayload.nonceText bytes) = .ok child) ∨
      master.signingKey (AuthPayload.nonceText bytes) = .error (.derivation .unusableDigest) := by
  obtain ⟨path, hpath, hlength⟩ := ChildNumber.exists_ofNonce_nonceText bytes
  rw [Xpriv.signingKey_of_path _ hpath]
  rcases master.descendant_cases path with ⟨child, hchild, -⟩ | hdigest | ⟨-, hdepth⟩
  · exact .inl ⟨child, by rw [hchild, mapError_ok]⟩
  · exact .inr (by rw [hdigest, mapError_error])
  · omega

/-! ### Payloads that are not built -/

namespace AuthPayload

variable {body : Bytes} {moment : Moment} {bytes : Bytes.Sized 32}

theorem signed_of_error {identity : AuthIdentity} {key : SecretKey} {nonce : String} {time : ℤ}
    {fault : SigningFault}
    (h : key.signText (authMessage identity.text (hashBody body) nonce time) = .error fault) :
    signed identity key body nonce time = .error (.step .signMessage (.signing fault)) := by
  rw [signed, signMessage, h, mapError_error, error_bind]

theorem forAccessKey_of_random (hrandom : moment.random = .ok bytes) (key : SecretKey) :
    forAccessKey key body moment =
      signed (.accessKey key.publicText) key body (nonceText bytes) moment.time := by
  rw [forAccessKey, freshNonce_eq_ok.mpr ⟨bytes, hrandom, rfl⟩, ok_bind]

theorem forXpriv_of_random (hrandom : moment.random = .ok bytes) (master : Xpriv) :
    forXpriv master body moment =
      ((master.signingKey (nonceText bytes)).mapError (AuthError.step .deriveChildKey) >>=
        fun child => signed (.xpub master.publicHalf.text) child.key body (nonceText bytes)
          moment.time) := by
  rw [forXpriv, freshNonce_eq_ok.mpr ⟨bytes, hrandom, rfl⟩, ok_bind]

/-- With random bytes a payload is built with an access key, unless the arithmetic fails. -/
theorem forAccessKey_cases (hrandom : moment.random = .ok bytes) (key : SecretKey) :
    (∃ p, forAccessKey key body moment = .ok p) ∨
      ∃ e, forAccessKey key body moment = .error e ∧ e.isArithmetic = true := by
  rw [forAccessKey_of_random hrandom]
  cases hσ : key.signText (authMessage key.publicText (hashBody body) (nonceText bytes)
      moment.time) with
  | ok σ => exact .inl ⟨_, signed_eq_ok.mpr ⟨σ, hσ, rfl⟩⟩
  | error fault => exact .inr ⟨_, signed_of_error hσ, rfl⟩

/-- With random bytes a payload is built below a master key that has eight levels below it, unless
the arithmetic fails. -/
theorem forXpriv_cases (hrandom : moment.random = .ok bytes) {master : Xpriv}
    (hlevels : master.depth.toNat + 8 ≤ 255) :
    (∃ p, forXpriv master body moment = .ok p) ∨
      ∃ e, forXpriv master body moment = .error e ∧ e.isArithmetic = true := by
  rw [forXpriv_of_random hrandom]
  rcases Xpriv.signingKey_cases hlevels bytes with ⟨child, hchild⟩ | hdigest
  · rw [hchild, mapError_ok, ok_bind]
    cases hσ : child.key.signText (authMessage master.publicHalf.text (hashBody body)
        (nonceText bytes) moment.time) with
    | ok σ => exact .inl ⟨_, signed_eq_ok.mpr ⟨σ, hσ, rfl⟩⟩
    | error fault => exact .inr ⟨_, signed_of_error hσ, rfl⟩
  · rw [hdigest, mapError_error, error_bind]
    exact .inr ⟨_, rfl, rfl⟩

end AuthPayload

/-! ### Headers that are not written -/

namespace Authenticator

variable {a : Authenticator} {body : Bytes} {moment : Moment} {h : HeaderMap}

theorem append_of_fields_error {e : AuthError} (hf : a.fields body moment = .error e) :
    a.append h body moment = .error (.append a.mode e) := by
  rw [append, write_run, hf]
  rfl

theorem exists_append_of_issues {fields : List (String × String)}
    (hissues : a.Issues body moment fields) : ∃ h', a.append h body moment = .ok h' :=
  ⟨_, append_eq_ok.mpr ⟨fields, hissues, rfl⟩⟩

/-- A mode that signs needs random bytes. -/
theorem exists_random_of_append (hsigns : a.mode.signs = true) {h' : HeaderMap}
    (happ : a.append h body moment = .ok h') : ∃ bytes, moment.random = .ok bytes := by
  obtain ⟨fields, hissues, -⟩ := append_eq_ok.mp happ
  cases hissues with
  | noAuth => exact nomatch hsigns
  | publicKeyOnly => exact nomatch hsigns
  | accessKey hp =>
    obtain ⟨bytes, -, hbytes, -⟩ := AuthPayload.forAccessKey_eq_ok.mp hp
    exact ⟨bytes, hbytes⟩
  | extendedKey hp =>
    obtain ⟨bytes, -, -, hbytes, -⟩ := AuthPayload.forXpriv_eq_ok.mp hp
    exact ⟨bytes, hbytes⟩

/-- A request is authenticated where it needs no random bytes or has them, unless the arithmetic
fails. -/
theorem append_cases (hlevels : a.HasLevels 8)
    (hrandom : a.mode.signs = true → ∃ bytes, moment.random = .ok bytes) :
    (∃ h', a.append h body moment = .ok h') ∨
      ∃ e, a.append h body moment = .error e ∧ e.isArithmetic = true := by
  cases a with
  | noAuth => exact .inl (exists_append_of_issues .noAuth)
  | publicKeyOnly key => exact .inl (exists_append_of_issues .publicKeyOnly)
  | accessKey key =>
    obtain ⟨bytes, hbytes⟩ := hrandom rfl
    rcases AuthPayload.forAccessKey_cases hbytes key with ⟨p, hp⟩ | ⟨e, he, harith⟩
    · exact .inl (exists_append_of_issues (.accessKey hp))
    · have hf : (accessKey key).fields body moment = .error (.step .buildAccessKeyPayload e) := by
        rw [fields, he, mapError_error, error_bind]
      exact .inr ⟨_, append_of_fields_error hf, harith⟩
  | extendedKey master =>
    obtain ⟨bytes, hbytes⟩ := hrandom rfl
    rcases AuthPayload.forXpriv_cases hbytes (hlevels master rfl) with ⟨p, hp⟩ | ⟨e, he, harith⟩
    · exact .inl (exists_append_of_issues (.extendedKey hp))
    · have hf : (extendedKey master).fields body moment = .error (.step .buildXprivPayload e) := by
        rw [fields, he, mapError_error, error_bind]
      exact .inr ⟨_, append_of_fields_error hf, harith⟩

/-- The arithmetic of keys and signatures does not fail a request. -/
def Computes (a : Authenticator) (body : Bytes) (moment : Moment) : Prop :=
  ∀ h e, a.append h body moment = .error e → e.isArithmetic = false

/-- **A request is authenticated exactly when its mode does not sign or there are random bytes.**
The key has no part in it, as far as the arithmetic does not fail. -/
theorem exists_append_iff (hlevels : a.HasLevels 8) (hcomputes : a.Computes body moment) :
    (∃ h', a.append h body moment = .ok h') ↔
      (a.mode.signs = true → ∃ bytes, moment.random = .ok bytes) := by
  constructor
  · rintro ⟨h', happ⟩ hsigns
    exact exists_random_of_append hsigns happ
  · intro hrandom
    rcases append_cases hlevels hrandom with hok | ⟨e, he, harith⟩
    · exact hok
    · rw [hcomputes h e he] at harith
      exact nomatch harith

end Authenticator

end WalletApi
