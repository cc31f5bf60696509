import WalletApi.Proofs.Client.Redaction

/-!
# What the calls of a builder come to

A builder keeps the last value that it was given for each setting, and a configuration that is given
as a whole takes away the settings before it, though not the keys. So what is collected can be told
from the calls without following the builder (`WalletApi.ClientBuilder.collected_eq`): the last key
of each kind, the last configuration, and the last of each setting since that one.

Which credential is used depends on the kinds of the keys and not on their order
(`WalletApi.ClientBuilder.usedCredential`). It is the only one that is read, and it is read before
the address of the server, so that the client or the error depends on these two texts alone
(`WalletApi.Client.ofBuilder_fst`).
-/

namespace WalletApi

namespace ClientBuilder

/-! ### The calls that give a setting -/

/-- The configuration that a call gives as a whole. -/
def Step.config? : Step → Option ClientConfig
  | .config c => some c
  | _ => none

/-- The address that a call gives. -/
def Step.baseUrl? : Step → Option String
  | .baseUrl url => some url
  | _ => none

/-- The time for a response that a call gives. -/
def Step.timeout? : Step → Option Duration
  | .timeout d => some d
  | _ => none

/-- The time for a connection that a call gives. -/
def Step.connectTimeout? : Step → Option Duration
  | .connectTimeout d => some d
  | _ => none

/-- The extended private key that a call gives. -/
def Step.xpriv? : Step → Option String
  | .xpriv text => some text
  | _ => none

/-- The extended public key that a call gives. -/
def Step.xpub? : Step → Option String
  | .xpub text => some text
  | _ => none

/-- The access key that a call gives. -/
def Step.accessKey? : Step → Option String
  | .accessKey text => some text
  | _ => none

/-- The last of the values that some calls give. -/
def lastGiven {α : Type} (given : Step → Option α) (steps : List Step) : Option α :=
  (steps.filterMap given).getLast?

/-- The calls after the last one that gives a whole configuration. -/
def sinceConfig (steps : List Step) : List Step :=
  (steps.reverse.takeWhile fun s => s.config?.isNone).reverse

theorem lastGiven_concat {α : Type} (given : Step → Option α) (steps : List Step) (s : Step) :
    lastGiven given (steps ++ [s]) = (given s).or (lastGiven given steps) := by
  rw [lastGiven, List.filterMap_append, List.getLast?_append]
  cases hgiven : given s with
  | none => rw [List.filterMap_cons_none hgiven]; rfl
  | some a => rw [List.filterMap_cons_some hgiven]; rfl

theorem sinceConfig_concat (steps : List Step) (s : Step) :
    sinceConfig (steps ++ [s]) = if s.config?.isNone then sinceConfig steps ++ [s] else [] := by
  rw [sinceConfig, List.reverse_concat, List.takeWhile_cons]
  split
  · rw [List.reverse_cons]
    rfl
  · rfl

/-! ### What they come to -/

/-- The last whole configuration, or the default. -/
def lastConfig (steps : List Step) : ClientConfig :=
  (lastGiven Step.config? steps).getD .default

/-- **The credential that calls come to**: an access key before an extended private key before an
extended public key, each the last of its kind, and only then that of the configuration. -/
def usedCredential (steps : List Step) : Option Credential :=
  ((lastGiven Step.accessKey? steps).map Credential.accessKey).or
    (((lastGiven Step.xpriv? steps).map Credential.xpriv).or
      (((lastGiven Step.xpub? steps).map Credential.xpub).or (lastConfig steps).credential))

/-- **The configuration that calls come to.** -/
def usedConfig (steps : List Step) : ClientConfig where
  baseUrl := (lastGiven Step.baseUrl? (sinceConfig steps)).getD (lastConfig steps).baseUrl
  timeout := (lastGiven Step.timeout? (sinceConfig steps)).getD (lastConfig steps).timeout
  connectTimeout :=
    (lastGiven Step.connectTimeout? (sinceConfig steps)).getD (lastConfig steps).connectTimeout
  credential := usedCredential steps

/-- How many of the three kinds of keys are given to the builder. -/
def countKinds (steps : List Step) : ℕ :=
  [steps.any fun s => s.accessKey?.isSome, steps.any fun s => s.xpriv?.isSome,
    steps.any fun s => s.xpub?.isSome].count true

/-- What a builder has collected after some calls. -/
def collected (steps : List Step) : ClientBuilder := steps.foldl apply .empty

theorem collected_concat (steps : List Step) (s : Step) :
    collected (steps ++ [s]) = (collected steps).apply s := List.foldl_concat _ _ _ _

/-- **A builder has collected** the last key of each kind and the last value of each setting; the
credential of its configuration is untouched by the keys. -/
theorem collected_eq (steps : List Step) :
    collected steps =
      { config := { usedConfig steps with credential := (lastConfig steps).credential }
        xpriv := lastGiven Step.xpriv? steps
        xpub := lastGiven Step.xpub? steps
        accessKey := lastGiven Step.accessKey? steps } := by
  induction steps using List.reverseRecOn with
  | nil => rfl
  | append_singleton steps s ih =>
    rw [collected_concat, ih]
    cases s with
    | config c =>
      simp only [apply, usedConfig, lastConfig, lastGiven_concat, sinceConfig_concat,
        Step.config?, Step.xpriv?, Step.xpub?, Step.accessKey?, Option.none_or, Option.some_or,
        Option.isNone_some, Option.getD_some, Bool.false_eq_true, if_false]
      rfl
    | _ =>
      simp only [apply, usedConfig, lastConfig, lastGiven_concat, sinceConfig_concat,
        Step.config?, Step.baseUrl?, Step.timeout?, Step.connectTimeout?, Step.xpriv?, Step.xpub?,
        Step.accessKey?, Option.none_or, Option.some_or, Option.isNone_none, Option.getD_some,
        if_true]

theorem isSome_lastGiven {α : Type} (given : Step → Option α) (steps : List Step) :
    (lastGiven given steps).isSome = steps.any fun s => (given s).isSome := by
  induction steps using List.reverseRecOn with
  | nil => rfl
  | append_singleton steps s ih =>
    rw [lastGiven_concat, Option.isSome_or, ih, List.any_append, Bool.or_comm, List.any_cons,
      List.any_nil, Bool.or_false]

end ClientBuilder

/-! ### Which credential is used -/

theorem Credential.select_fst (xpriv xpub accessKey : Option String) :
    (select xpriv xpub accessKey).1 =
      (accessKey.map Credential.accessKey).or
        ((xpriv.map Credential.xpriv).or (xpub.map Credential.xpub)) := by
  cases accessKey <;> cases xpriv <;> cases xpub <;> rfl

/-- There is a warning where one key wins over another one. -/
theorem Credential.exists_warning_iff (xpriv xpub accessKey : Option String) :
    (∃ e ∈ (select xpriv xpub accessKey).2, e.level = .warn) ↔
      2 ≤ [accessKey.isSome, xpriv.isSome, xpub.isSome].count true := by
  cases accessKey <;> cases xpriv <;> cases xpub <;>
    simp [select, winner, countConfigured]

theorem Authenticator.exists_fault_of_ofCredential {c : Option Credential} {e : AuthError}
    (h : ofCredential c = .error e) : ∃ fault, e = .keyFormat fault := by
  cases c with
  | none => cases h
  | some c =>
    cases c with
    | accessKey text =>
      rw [ofCredential, SecretKey.read] at h
      split at h
      · cases h
      · exact ⟨_, (Except.error.inj h).symm⟩
    | xpriv text =>
      rw [ofCredential] at h
      split at h
      · cases h
      · exact ⟨_, (Except.error.inj h).symm⟩
    | xpub text =>
      rw [ofCredential] at h
      split at h
      · cases h
      · exact ⟨_, (Except.error.inj h).symm⟩

namespace ClientBuilder

/-- The calls of a builder resolve to the configuration that they come to. -/
theorem resolve_collected (steps : List Step) :
    (collected steps).resolve =
      (usedConfig steps, (Credential.select (lastGiven Step.xpriv? steps)
        (lastGiven Step.xpub? steps) (lastGiven Step.accessKey? steps)).2) := by
  have hselect := Credential.select_fst (lastGiven Step.xpriv? steps)
    (lastGiven Step.xpub? steps) (lastGiven Step.accessKey? steps)
  have hused : usedCredential steps = (Credential.select (lastGiven Step.xpriv? steps)
      (lastGiven Step.xpub? steps) (lastGiven Step.accessKey? steps)).1.or
        (lastConfig steps).credential := by
    rw [hselect, usedCredential, Option.or_assoc, Option.or_assoc]
  have hconfig : ∀ c, usedCredential steps = c →
      { usedConfig steps with credential := c } = usedConfig steps := by
    rintro _ rfl
    rfl
  rw [resolve, collected_eq]
  cases hresult : Credential.select (lastGiven Step.xpriv? steps) (lastGiven Step.xpub? steps)
    (lastGiven Step.accessKey? steps) with
  | mk selected log =>
    rw [hresult] at hused
    cases selected with
    | none => exact Prod.ext (hconfig _ hused) rfl
    | some c => exact Prod.ext (hconfig _ hused) rfl

end ClientBuilder

/-! ### The client -/

namespace Client

open ClientBuilder

/-- The credential is read first, and the address of the server after it. -/
theorem ofConfig_fst (config : ClientConfig) :
    (ofConfig config).1 =
      ((Authenticator.ofCredential config.credential).mapError ClientError.auth >>= fun auth =>
        (readBaseUrl config.baseUrl).map fun url => ⟨url, auth⟩) := by
  rw [ofConfig]
  cases Authenticator.ofCredential config.credential with
  | error e => rfl
  | ok auth =>
    cases readBaseUrl config.baseUrl with
    | error e => rfl
    | ok url => rfl

theorem level_of_mem_ofConfig {config : ClientConfig} {e : LogEvent}
    (h : e ∈ (ofConfig config).2) : e.level = .info := by
  rw [ofConfig] at h
  split at h
  · exact absurd h List.not_mem_nil
  · split at h
    · exact absurd h List.not_mem_nil
    · rw [List.mem_singleton.mp h]

theorem exists_readBaseUrl_iff {s : String} :
    (∃ u, readBaseUrl s = .ok u) ↔ ∃ u, Url.ofText s = .ok u := by
  constructor
  · rintro ⟨u, hu⟩
    obtain ⟨server, hserver, -⟩ := map_eq_ok.mp hu
    exact ⟨server, mapError_eq_ok.mp hserver⟩
  · rintro ⟨server, hserver⟩
    exact ⟨server.closePath, by rw [readBaseUrl, hserver]; rfl⟩

/-- **The client of a builder's calls** depends on the credential and the address that they come to,
and on nothing else. -/
theorem ofBuilder_fst (steps : List ClientBuilder.Step) :
    (ofBuilder (collected steps)).1 =
      ((Authenticator.ofCredential (usedCredential steps)).mapError ClientError.auth >>= fun auth =>
        (readBaseUrl (usedConfig steps).baseUrl).map fun url => ⟨url, auth⟩) := by
  have hclient : (ofBuilder (collected steps)).1 = (ofConfig (usedConfig steps)).1 := by
    rw [ofBuilder, resolve_collected]
  rw [hclient, ofConfig_fst]
  rfl

theorem exists_warning_ofBuilder_iff (steps : List ClientBuilder.Step) :
    (∃ e ∈ (ofBuilder (collected steps)).2, e.level = .warn) ↔ 2 ≤ countKinds steps := by
  have hlog : (ofBuilder (collected steps)).2 =
      (Credential.select (lastGiven ClientBuilder.Step.xpriv? steps)
        (lastGiven ClientBuilder.Step.xpub? steps)
        (lastGiven ClientBuilder.Step.accessKey? steps)).2 ++ (ofConfig (usedConfig steps)).2 := by
    rw [ofBuilder, resolve_collected]
  have hmaking : ¬ ∃ e ∈ (ofConfig (usedConfig steps)).2, e.level = .warn := by
    rintro ⟨e, he, hlevel⟩
    exact nomatch hlevel.symm.trans (level_of_mem_ofConfig he)
  rw [hlog]
  simp only [List.mem_append, or_and_right, exists_or]
  rw [or_iff_left hmaking, Credential.exists_warning_iff, isSome_lastGiven, isSome_lastGiven,
    isSome_lastGiven, countKinds]

/-- **Calls of a builder come to one credential and one address**, whatever their order. The builder
resolves to them; it warns where keys of two kinds were given; it makes a client exactly where both
are well formed, in the mode of the credential; a malformed credential is told before a malformed
address; and no other key makes a difference. -/
theorem builder_resolves (steps : List ClientBuilder.Step) :
    (collected steps).resolve.1 = usedConfig steps ∧
    ((∃ e ∈ (ofBuilder (collected steps)).2, e.level = .warn) ↔ 2 ≤ countKinds steps) ∧
    ((∃ c, (ofBuilder (collected steps)).1 = .ok c) ↔
      (∃ auth, Authenticator.ofCredential (usedCredential steps) = .ok auth) ∧
        ∃ u, Url.ofText (usedConfig steps).baseUrl = .ok u) ∧
    (∀ c, (ofBuilder (collected steps)).1 = .ok c →
      c.auth.mode = Credential.mode (usedCredential steps) ∧
      Authenticator.ofCredential (usedCredential steps) = .ok c.auth ∧
      ∃ u, Url.ofText (usedConfig steps).baseUrl = .ok u ∧ c.baseUrl = u.closePath) ∧
    ((¬ ∃ auth, Authenticator.ofCredential (usedCredential steps) = .ok auth) →
      ∃ fault, (ofBuilder (collected steps)).1 = .error (.auth (.keyFormat fault))) ∧
    ∀ others, usedCredential others = usedCredential steps →
      (usedConfig others).baseUrl = (usedConfig steps).baseUrl →
        (ofBuilder (collected others)).1 = (ofBuilder (collected steps)).1 := by
  have hmade : ∀ c, (ofBuilder (collected steps)).1 = .ok c ↔
      Authenticator.ofCredential (usedCredential steps) = .ok c.auth ∧
        readBaseUrl (usedConfig steps).baseUrl = .ok c.baseUrl := by
    intro c
    rw [ofBuilder_fst, bind_eq_ok]
    constructor
    · rintro ⟨auth, hauth, h⟩
      obtain ⟨url, hurl, rfl⟩ := map_eq_ok.mp h
      exact ⟨mapError_eq_ok.mp hauth, hurl⟩
    · rintro ⟨hauth, hurl⟩
      exact ⟨c.auth, mapError_eq_ok.mpr hauth, map_eq_ok.mpr ⟨c.baseUrl, hurl, rfl⟩⟩
  refine ⟨by rw [resolve_collected], exists_warning_ofBuilder_iff steps, ?_, ?_, ?_, ?_⟩
  · rw [← exists_readBaseUrl_iff]
    constructor
    · rintro ⟨c, hc⟩
      obtain ⟨hauth, hurl⟩ := (hmade c).mp hc
      exact ⟨⟨_, hauth⟩, _, hurl⟩
    · rintro ⟨⟨auth, hauth⟩, url, hurl⟩
      exact ⟨⟨url, auth⟩, (hmade _).mpr ⟨hauth, hurl⟩⟩
  · intro c hc
    obtain ⟨hauth, hurl⟩ := (hmade c).mp hc
    obtain ⟨u, hu, hclosed⟩ := map_eq_ok.mp hurl
    exact ⟨Authenticator.mode_of_ofCredential hauth, hauth, u, mapError_eq_ok.mp hu, hclosed.symm⟩
  · intro hmalformed
    rw [ofBuilder_fst]
    cases hauth : Authenticator.ofCredential (usedCredential steps) with
    | ok auth => exact absurd ⟨auth, hauth⟩ hmalformed
    | error e =>
      obtain ⟨fault, rfl⟩ := Authenticator.exists_fault_of_ofCredential hauth
      exact ⟨fault, rfl⟩
  · intro others hcredential hbase
    rw [ofBuilder_fst, ofBuilder_fst, hcredential, hbase]

/-- An extended key of some text, the access key one, and then a whole configuration. -/
def outranked (text : String) : List ClientBuilder.Step :=
  [.xpriv text,
    .accessKey "0000000000000000000000000000000000000000000000000000000000000001",
    .config .default]

/-- A malformed extended key before an access key is warned of, and makes no difference
otherwise. -/
theorem builder_resolves_outranked :
    (∃ c, (ofBuilder (collected (outranked "first"))).1 = .ok c ∧
      c.auth.mode = .signedWithAccessKey) ∧
    (∃ e ∈ (ofBuilder (collected (outranked "first"))).2, e.level = .warn) ∧
    ∀ text, (ofBuilder (collected (outranked text))).1 =
      (ofBuilder (collected (outranked "first"))).1 := by
  obtain ⟨-, hwarning, hmade, hmode, -, hothers⟩ := builder_resolves (outranked "first")
  have hauth : (Authenticator.ofCredential (usedCredential (outranked "first"))).isOk = true := by
    decide +kernel
  have hurl : (Url.ofText (usedConfig (outranked "first")).baseUrl).isOk = true := by
    decide +kernel
  obtain ⟨c, hc⟩ := hmade.mpr ⟨exists_of_isOk hauth, exists_of_isOk hurl⟩
  exact ⟨⟨c, hc, (hmode c hc).1⟩, hwarning.mpr (by decide),
    fun text => hothers (outranked text) rfl rfl⟩

end Client

end WalletApi
