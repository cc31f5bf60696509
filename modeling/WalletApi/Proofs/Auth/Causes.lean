import WalletApi.Proofs.Auth.Failures

/-!
# The errors that a call can end in

A call that authenticates a request has many steps that could fail, and only two causes are left
when all of them are followed: there are no random bytes for a nonce, or the master key is so deep
that the key of the nonce would lie below the last level. The other branches are not reached. A
nonce that was drawn is well formed, a signature that was made leads back to its key, and what is
computed may stand in a header.

What has to be relied on is told in `WalletApi.Authenticator.IsServed`: that the digests of the
derivation are usable numbers, and that the key which signs finds a signature. Then the errors of a
call are known exactly, with all their wrappers (`WalletApi.Authenticator.append_eq_error_iff`).
-/

namespace WalletApi

/-! ### What is relied on -/

/-- No step along a path meets a digest that is no usable number. -/
def Xpriv.IsUsableAlong (k : Xpriv) : List ChildNumber → Prop
  | [] => True
  | c :: path => k.derive c ≠ .error .unusableDigest ∧
      ∀ child, k.derive c = .ok child → child.IsUsableAlong path

theorem Xpriv.IsUsableAlong.descendant_ne {k : Xpriv} {path : List ChildNumber}
    (h : k.IsUsableAlong path) : k.descendant path ≠ .error .unusableDigest := by
  induction path generalizing k with
  | nil => exact nofun
  | cons c path ih =>
    rw [Xpriv.descendant, List.foldlM_cons]
    cases hc : k.derive c with
    | error fault =>
      rintro heq
      exact h.1 (hc.trans heq)
    | ok child => exact ih (h.2 child hc)

/-- The key that signs a call, and the text that it signs. -/
inductive Authenticator.Signs (body : Bytes) (moment : Moment) :
    Authenticator → SecretKey → String → Prop
  | accessKey {key : SecretKey} {bytes : Bytes.Sized 32} (hrandom : moment.random = .ok bytes) :
    Signs body moment (.accessKey key) key
      (authMessage key.publicText (hashBody body) (AuthPayload.nonceText bytes) moment.time)
  | extendedKey {master child : Xpriv} {bytes : Bytes.Sized 32}
    (hrandom : moment.random = .ok bytes)
    (hchild : master.signingKey (AuthPayload.nonceText bytes) = .ok child) :
    Signs body moment (.extendedKey master) child.key
      (authMessage master.publicHalf.text (hashBody body) (AuthPayload.nonceText bytes)
        moment.time)

/-- **What a call relies on.** A digest is unusable about once in `2 ^ 127` times, and a signer
gives up only where each of the nonces that it tries is. -/
structure Authenticator.IsServed (a : Authenticator) (body : Bytes) (moment : Moment) : Prop where
  /-- The digests on the way to the key of the nonce are usable numbers. -/
  usable : ∀ master bytes path, a = .extendedKey master → moment.random = .ok bytes →
    ChildNumber.ofNonce (AuthPayload.nonceText bytes) = .ok path → master.IsUsableAlong path
  /-- The key that signs finds a signature. -/
  signature : ∀ key text, Signs body moment a key text →
    (Signature.sign? key (SignedMessage.digest text)).isSome = true

/-! ### Payloads -/

/-- The key of a nonce is there exactly if the master key has eight levels below it. -/
theorem Xpriv.signingKey_of_isUsableAlong {master : Xpriv} {bytes : Bytes.Sized 32}
    (h : ∀ path, ChildNumber.ofNonce (AuthPayload.nonceText bytes) = .ok path →
      master.IsUsableAlong path) :
    (master.depth.toNat < 248 ∧
        ∃ child, master.signingKey (AuthPayload.nonceText bytes) = .ok child) ∨
      248 ≤ master.depth.toNat ∧
        master.signingKey (AuthPayload.nonceText bytes) = .error (.derivation .depthExceeded) := by
  obtain ⟨path, hpath, hlength⟩ := ChildNumber.exists_ofNonce_nonceText bytes
  rw [Xpriv.signingKey_of_path _ hpath]
  rcases master.descendant_cases path with ⟨child, hchild, hdepth⟩ | hdigest | ⟨hdeep, hdepth⟩
  · have hlt := child.depth.toNat_lt
    exact .inl ⟨by omega, child, by rw [hchild, mapError_ok]⟩
  · exact absurd hdigest (h path hpath).descendant_ne
  · exact .inr ⟨by omega, by rw [hdeep, mapError_error]⟩

namespace AuthPayload

variable {body : Bytes} {moment : Moment}

theorem freshNonce_of_error {reason : String} (h : moment.random = .error reason) :
    freshNonce moment = .error (.step .generateNonce (.randomness reason)) := by
  rw [freshNonce, h]

theorem forAccessKey_of_error {reason : String} (h : moment.random = .error reason)
    (key : SecretKey) :
    forAccessKey key body moment = .error (.step .generateNonce (.randomness reason)) := by
  rw [forAccessKey, freshNonce_of_error h, error_bind]

theorem forXpriv_of_error {reason : String} (h : moment.random = .error reason) (master : Xpriv) :
    forXpriv master body moment = .error (.step .generateNonce (.randomness reason)) := by
  rw [forXpriv, freshNonce_of_error h, error_bind]

theorem exists_signed (identity : AuthIdentity) {key : SecretKey} {nonce : String} {time : ℤ}
    (h : (Signature.sign? key (SignedMessage.digest
      (authMessage identity.text (hashBody body) nonce time))).isSome = true) :
    ∃ p, signed identity key body nonce time = .ok p := by
  obtain ⟨σ, hσ⟩ := Option.isSome_iff_exists.mp h
  exact ⟨_, signed_eq_ok.mpr ⟨_, SecretKey.signText_eq_ok.mpr ⟨σ, hσ, rfl⟩, rfl⟩⟩

end AuthPayload

/-! ### Calls -/

/-- The step that builds the payload of a mode that signs. -/
def AuthMode.payloadStep? : AuthMode → Option AuthStep
  | .noAuth => none
  | .publicKeyOnly => none
  | .signedWithDerivedKey => some .buildXprivPayload
  | .signedWithAccessKey => some .buildAccessKeyPayload

namespace Authenticator

variable {a : Authenticator} {body : Bytes} {moment : Moment} {h : HeaderMap}

/-- **The errors that a call can end in**, with the step and the mode that met them. -/
inductive Foresees (moment : Moment) : Authenticator → AuthError → Prop
  /-- There are no random bytes. -/
  | noRandom {a : Authenticator} {work : AuthStep} {reason : String}
    (hwork : a.mode.payloadStep? = some work) (hrandom : moment.random = .error reason) :
    Foresees moment a
      (.append a.mode (.step work (.step .generateNonce (.randomness reason))))
  /-- The key of the nonce would lie below the last level. -/
  | noLevel {master : Xpriv} {bytes : Bytes.Sized 32} (hrandom : moment.random = .ok bytes)
    (hdepth : 248 ≤ master.depth.toNat) :
    Foresees moment (.extendedKey master)
      (.append .signedWithDerivedKey
        (.step .buildXprivPayload (.step .deriveChildKey (.derivation .depthExceeded))))

/-- A call that does not sign succeeds whatever the moment is. -/
theorem append_of_signs_eq_false (hsigns : a.mode.signs = false) (body : Bytes) (h : HeaderMap) :
    ∃ h', ∀ moment, a.append h body moment = .ok h' := by
  cases a with
  | noAuth => exact ⟨h, fun _ => append_eq_ok.mpr ⟨_, .noAuth, rfl⟩⟩
  | publicKeyOnly key => exact ⟨_, fun _ => append_eq_ok.mpr ⟨_, .publicKeyOnly, rfl⟩⟩
  | accessKey key => exact nomatch hsigns
  | extendedKey master => exact nomatch hsigns

/-- An error that is foreseen is the one that the call ends in. -/
theorem append_of_foresees (hserved : a.IsServed body moment) {e : AuthError}
    (hforesees : a.Foresees moment e) (h : HeaderMap) : a.append h body moment = .error e := by
  cases hforesees with
  | noRandom hwork hrandom =>
    cases a with
    | noAuth => exact nomatch hwork
    | publicKeyOnly key => exact nomatch hwork
    | accessKey key =>
      obtain rfl := Option.some.inj hwork
      refine append_of_fields_error ?_
      rw [fields, AuthPayload.forAccessKey_of_error hrandom, mapError_error, error_bind]
    | extendedKey master =>
      obtain rfl := Option.some.inj hwork
      refine append_of_fields_error ?_
      rw [fields, AuthPayload.forXpriv_of_error hrandom, mapError_error, error_bind]
  | @noLevel master bytes hrandom hdepth =>
    have hkey : master.signingKey (AuthPayload.nonceText bytes) =
        .error (.derivation .depthExceeded) := by
      rcases Xpriv.signingKey_of_isUsableAlong fun path => hserved.usable master bytes path rfl
        hrandom with ⟨hlt, -⟩ | ⟨-, hkey⟩
      · omega
      · exact hkey
    refine append_of_fields_error ?_
    rw [fields, AuthPayload.forXpriv_of_random hrandom, hkey, mapError_error, error_bind,
      mapError_error, error_bind]

/-- Where no error is foreseen the call succeeds. -/
theorem exists_append_of_not_foresees (hserved : a.IsServed body moment)
    (hnone : ∀ e, ¬ a.Foresees moment e) (h : HeaderMap) :
    ∃ h', a.append h body moment = .ok h' := by
  have hrandom : ∀ work, a.mode.payloadStep? = some work → ∃ bytes, moment.random = .ok bytes := by
    intro work hwork
    cases hr : moment.random with
    | error reason => exact absurd (.noRandom hwork hr) (hnone _)
    | ok bytes => exact ⟨bytes, rfl⟩
  cases a with
  | noAuth => exact exists_append_of_issues .noAuth
  | publicKeyOnly key => exact exists_append_of_issues .publicKeyOnly
  | accessKey key =>
    obtain ⟨bytes, hbytes⟩ := hrandom _ rfl
    obtain ⟨p, hp⟩ := AuthPayload.exists_signed (.accessKey key.publicText)
      (hserved.signature _ _ (.accessKey hbytes))
    exact exists_append_of_issues
      (.accessKey ((AuthPayload.forAccessKey_of_random hbytes key).trans hp))
  | extendedKey master =>
    obtain ⟨bytes, hbytes⟩ := hrandom _ rfl
    rcases Xpriv.signingKey_of_isUsableAlong fun path => hserved.usable master bytes path rfl
      hbytes with ⟨-, child, hchild⟩ | ⟨hdepth, -⟩
    · obtain ⟨p, hp⟩ := AuthPayload.exists_signed (.xpub master.publicHalf.text)
        (hserved.signature _ _ (.extendedKey hbytes hchild))
      refine exists_append_of_issues (.extendedKey (p := p) ?_)
      rw [AuthPayload.forXpriv_of_random hbytes, hchild, mapError_ok, ok_bind]
      exact hp
    · exact absurd (.noLevel hbytes hdepth) (hnone _)

/-- **The errors of a call are those that are foreseen.** -/
theorem append_eq_error_iff (hserved : a.IsServed body moment) {e : AuthError} :
    a.append h body moment = .error e ↔ a.Foresees moment e := by
  refine ⟨fun happ => ?_, fun hforesees => append_of_foresees hserved hforesees h⟩
  by_cases hsome : ∃ e', a.Foresees moment e'
  · obtain ⟨e', he'⟩ := hsome
    obtain rfl := Except.error.inj (happ.symm.trans (append_of_foresees hserved he' h))
    exact he'
  · obtain ⟨h', hok⟩ :=
      exists_append_of_not_foresees hserved (fun e' he' => hsome ⟨e', he'⟩) h
    exact nomatch happ.symm.trans hok

theorem exists_append_error_accessKey_iff {key : SecretKey}
    (hserved : (accessKey key).IsServed body moment) :
    (∃ e, (accessKey key).append h body moment = .error e) ↔
      ∃ reason, moment.random = .error reason := by
  simp only [append_eq_error_iff hserved]
  constructor
  · rintro ⟨e, hforesees⟩
    cases hforesees with
    | noRandom hwork hrandom => exact ⟨_, hrandom⟩
  · rintro ⟨reason, hrandom⟩
    exact ⟨_, .noRandom rfl hrandom⟩

theorem exists_append_error_extendedKey_iff {master : Xpriv}
    (hserved : (extendedKey master).IsServed body moment) :
    (∃ e, (extendedKey master).append h body moment = .error e) ↔
      (∃ reason, moment.random = .error reason) ∨ 248 ≤ master.depth.toNat := by
  simp only [append_eq_error_iff hserved]
  constructor
  · rintro ⟨e, hforesees⟩
    cases hforesees with
    | noRandom hwork hrandom => exact .inl ⟨_, hrandom⟩
    | noLevel hrandom hdepth => exact .inr hdepth
  · rintro (⟨reason, hrandom⟩ | hdepth)
    · exact ⟨_, .noRandom rfl hrandom⟩
    · cases hrandom : moment.random with
      | error reason => exact ⟨_, .noRandom rfl hrandom⟩
      | ok bytes => exact ⟨_, .noLevel hrandom hdepth⟩

/-- **A call fails in the cases that are foreseen and no others.** Without a signature it succeeds
at every moment alike; with an access key it fails exactly without random bytes, and with an
extended key also where the key lies at the depth of 248 or below. The error tells the mode, the
step that builds the payload and the part of it that failed, and its root is the missing random
bytes or else the derivation, so it never lies in the text of a key. -/
theorem append_fails_as_foreseen (hserved : a.IsServed body moment) (h : HeaderMap) :
    (a.mode.signs = false → ∃ h', ∀ moment', a.append h body moment' = .ok h') ∧
    (a.mode = .signedWithAccessKey → ((∃ e, a.append h body moment = .error e) ↔
      ∃ reason, moment.random = .error reason)) ∧
    (∀ master, a = .extendedKey master → ((∃ e, a.append h body moment = .error e) ↔
      (∃ reason, moment.random = .error reason) ∨ 248 ≤ master.depth.toNat)) ∧
    ∀ e, a.append h body moment = .error e →
      e.isKeyFormat = false ∧ ∃ work part source, a.mode.payloadStep? = some work ∧
        e = .append a.mode (.step work (.step part source)) ∧ e.root = source ∧
        (∀ reason, moment.random = .error reason →
          part = .generateNonce ∧ source = .randomness reason) ∧
        (∀ bytes, moment.random = .ok bytes →
          part = .deriveChildKey ∧ source = .derivation .depthExceeded) := by
  refine ⟨fun hsigns => append_of_signs_eq_false hsigns body h, fun hmode => ?_, ?_, ?_⟩
  · cases a with
    | accessKey key => exact exists_append_error_accessKey_iff hserved
    | noAuth => exact nomatch hmode
    | publicKeyOnly key => exact nomatch hmode
    | extendedKey master => exact nomatch hmode
  · rintro master rfl
    exact exists_append_error_extendedKey_iff hserved
  · intro e happ
    cases (append_eq_error_iff hserved).mp happ with
    | noRandom hwork hrandom =>
      refine ⟨rfl, _, _, _, hwork, rfl, rfl, fun reason hreason => ?_, fun bytes hbytes => ?_⟩
      · exact ⟨rfl, by rw [Except.error.inj (hrandom.symm.trans hreason)]⟩
      · exact nomatch hrandom.symm.trans hbytes
    | noLevel hrandom hdepth =>
      refine ⟨rfl, _, _, _, rfl, rfl, rfl, fun reason hreason => ?_, fun bytes hbytes => ⟨rfl, rfl⟩⟩
      exact nomatch hrandom.symm.trans hreason

/-! ### A key on the last level -/

/-- A secret extended key on the last level. -/
def lastLevel : Xpriv where
  network := .main
  depth := 255
  parent := ⟨List.replicate 4 0, rfl⟩
  child := ⟨0⟩
  chainCode := ⟨List.replicate 32 1, rfl⟩
  key := keyOne

/-- A moment whose random bytes are as high as can be. -/
def highMoment : Moment := ⟨.ok ⟨List.replicate 32 255, rfl⟩, 0⟩

theorem derive_lastLevel : lastLevel.derive ⟨0x80000000⟩ = .error .depthExceeded := by
  decide +kernel

/-- Each step of the path of the highest nonce is the first hardened child. -/
theorem eq_of_mem_highPath {path : List ChildNumber} {bytes : Bytes.Sized 32}
    (hbytes : bytes = ⟨List.replicate 32 255, rfl⟩)
    (hpath : ChildNumber.ofNonce (AuthPayload.nonceText bytes) = .ok path) :
    ∀ c ∈ path, c = ⟨0x80000000⟩ := by
  have hdigits : (AuthPayload.nonceText bytes).toList = List.replicate 64 'f' := by
    rw [hbytes]
    decide +kernel
  obtain ⟨-, hlength⟩ := AuthPayload.groups_nonceText bytes
  rw [ChildNumber.eq_of_ofNonce hpath]
  intro c hc
  obtain ⟨g, hg, rfl⟩ := List.mem_map.mp hc
  have hgroup : g = List.replicate 8 'f' := by
    refine List.eq_replicate_iff.mpr ⟨hlength g hg, fun d hd => ?_⟩
    have hmem := ChildNumber.mem_of_mem_groups hg hd
    rw [hdigits] at hmem
    exact List.eq_of_mem_replicate hmem
  rw [hgroup]
  decide

theorem isServed_lastLevel : (extendedKey lastLevel).IsServed [] highMoment := by
  have husable : ∀ master bytes path, extendedKey lastLevel = .extendedKey master →
      highMoment.random = .ok bytes →
      ChildNumber.ofNonce (AuthPayload.nonceText bytes) = .ok path →
      master.IsUsableAlong path := by
    intro master bytes path hmaster hrandom hpath
    obtain rfl := extendedKey.inj hmaster
    have hall := eq_of_mem_highPath (Except.ok.inj hrandom).symm hpath
    cases path with
    | nil => trivial
    | cons c path =>
      rw [hall c List.mem_cons_self]
      exact ⟨by rw [derive_lastLevel]; exact nofun,
        fun child hchild => nomatch derive_lastLevel.symm.trans hchild⟩
  refine ⟨husable, fun key text hsigns => ?_⟩
  -- The key has no level below it, so there is none that would have to sign.
  cases hsigns with
  | @extendedKey _ child bytes hrandom hchild =>
    rcases Xpriv.signingKey_of_isUsableAlong fun path => husable lastLevel bytes path rfl hrandom
      with ⟨hlt, -⟩ | ⟨-, hdeep⟩
    · exact absurd hlt (by decide)
    · exact nomatch hdeep.symm.trans hchild

theorem isServed_keyOne : (accessKey keyOne).IsServed [] zeroMoment where
  usable _ _ _ hmaster := nomatch hmaster
  signature key text hsigns := by
    cases hsigns with
    | accessKey hrandom =>
      obtain rfl := Except.ok.inj hrandom
      exact isSome_sign?_keyOne

/-- A key on the last level authenticates no request, and the secret key one authenticates each for
which there are random bytes. -/
theorem append_fails_as_foreseen_lastLevel :
    (extendedKey lastLevel).IsServed [] highMoment ∧ (accessKey keyOne).IsServed [] zeroMoment ∧
      (∃ e, (extendedKey lastLevel).append .empty [] highMoment = .error e ∧
        e.root = .derivation .depthExceeded) ∧
      ∃ h', (accessKey keyOne).append .empty [] zeroMoment = .ok h' := by
  refine ⟨isServed_lastLevel, isServed_keyOne, ?_, ?_⟩
  · obtain ⟨-, -, hiff, hcause⟩ := append_fails_as_foreseen isServed_lastLevel .empty
    obtain ⟨e, he⟩ := (hiff lastLevel rfl).mpr (.inr (by decide))
    obtain ⟨-, work, part, source, -, -, hroot, -, hderivation⟩ := hcause e he
    exact ⟨e, he, hroot.trans (hderivation _ rfl).2⟩
  · obtain ⟨-, hiff, -, -⟩ := append_fails_as_foreseen isServed_keyOne .empty
    cases happ : (accessKey keyOne).append .empty [] zeroMoment with
    | ok h' => exact ⟨h', rfl⟩
    | error e =>
      obtain ⟨reason, hrandom⟩ := (hiff rfl).mp ⟨e, happ⟩
      exact nomatch hrandom

end Authenticator

end WalletApi
