import WalletApi.Proofs.Client.Runs
import WalletApi.Settings.Basic

/-!
# Setting up without the secrets

A client is set up from settings or by the calls of a builder. Here the texts of secret keys are
taken out of either and only their presence is kept (`WalletApi.Setup.withoutSecrets`). What is
shown of a setup and of all that is made on the way does not change by this, and neither does what
is logged, up to the client:

* `WalletApi.Setup.shown_withoutSecrets` – what is shown;
* `WalletApi.Setup.resolve_withoutSecrets` – the configuration and the choice of its credential;
* `WalletApi.Client.looksLike_of_ofConfig` – the client.
-/

namespace WalletApi

/-! ### Texts taken out -/

/-- No secret, or one whose text is taken out. -/
def Credential.presence (secret : Option String) : Option String := secret.map fun _ => ""

/-- The credential without its text, unless that is public. -/
def Credential.withoutSecret : Credential → Credential
  | .xpriv _ => .xpriv ""
  | .xpub text => .xpub text
  | .accessKey _ => .accessKey ""

/-- The configuration without the secret text of its credential. -/
def ClientConfig.withoutSecret (c : ClientConfig) : ClientConfig :=
  { c with credential := c.credential.map Credential.withoutSecret }

/-- The settings without the texts of secret keys. -/
def ClientSettings.withoutSecrets (s : ClientSettings) : ClientSettings :=
  { s with xpriv := Credential.presence s.xpriv, accessKey := Credential.presence s.accessKey }

namespace ClientBuilder

/-- What a builder has collected, without the texts of secret keys. -/
def withoutSecrets (b : ClientBuilder) : ClientBuilder where
  config := b.config.withoutSecret
  xpriv := Credential.presence b.xpriv
  xpub := b.xpub
  accessKey := Credential.presence b.accessKey

/-- A call of a builder without the text of a secret key. -/
def Step.withoutSecrets : Step → Step
  | .config c => .config c.withoutSecret
  | .xpriv _ => .xpriv ""
  | .accessKey _ => .accessKey ""
  | .baseUrl url => .baseUrl url
  | .timeout d => .timeout d
  | .connectTimeout d => .connectTimeout d
  | .xpub text => .xpub text

end ClientBuilder

/-- **How a client is set up.** -/
inductive Setup
  | settings (s : ClientSettings)
  | calls (steps : List ClientBuilder.Step)

namespace Setup

/-- The setup without the texts of secret keys. -/
def withoutSecrets : Setup → Setup
  | .settings s => .settings s.withoutSecrets
  | .calls steps => .calls (steps.map ClientBuilder.Step.withoutSecrets)

/-- The configuration of a setup, and what is logged when its credential is chosen. -/
def resolve : Setup → ClientConfig × List LogEvent
  | .settings s => s.toConfig
  | .calls steps => (steps.foldl ClientBuilder.apply .empty).resolve

/-- **The client of a setup**, and all that is logged on the way. -/
def connect (s : Setup) : Except ClientError Client × List LogEvent :=
  ((Client.ofConfig s.resolve.1).1, s.resolve.2 ++ (Client.ofConfig s.resolve.1).2)

/-- What is shown of the settings, or of the builder before the first call and after each one. -/
def given : Setup → List Shown
  | .settings s => [s.shown]
  | .calls steps => (steps.scanl ClientBuilder.apply .empty).map ClientBuilder.shown

/-- **What is shown of a setup**, and of the configuration and the credential that come of it. -/
def shown (s : Setup) : List Shown :=
  s.given ++ [s.resolve.1.shown, .option Credential.shown s.resolve.1.credential]

/-- The client of a builder's calls is the one that the builder makes. -/
theorem connect_calls (steps : List ClientBuilder.Step) :
    (calls steps).connect = Client.ofBuilder (steps.foldl ClientBuilder.apply .empty) := rfl

end Setup

/-! ### What is shown -/

theorem Credential.shown_withoutSecret (c : Credential) : c.withoutSecret.shown = c.shown := by
  cases c with
  | xpriv text => rfl
  | xpub text => rfl
  | accessKey text => rfl

theorem Credential.shownSecret_presence (secret : Option String) :
    shownSecret (presence secret) = shownSecret secret := by
  cases secret with
  | none => rfl
  | some text => rfl

theorem Credential.option_shown_withoutSecret (c : Option Credential) :
    Shown.option Credential.shown (c.map Credential.withoutSecret) =
      Shown.option Credential.shown c := by
  cases c with
  | none => rfl
  | some c => exact congrArg (Shown.wrapped "Some") c.shown_withoutSecret

theorem ClientConfig.shown_withoutSecret (c : ClientConfig) : c.withoutSecret.shown = c.shown := by
  rw [shown, withoutSecret, Credential.option_shown_withoutSecret]
  rfl

theorem ClientSettings.shown_withoutSecrets (s : ClientSettings) :
    s.withoutSecrets.shown = s.shown := by
  rw [shown, withoutSecrets, Credential.shownSecret_presence, Credential.shownSecret_presence]
  rfl

theorem ClientBuilder.shown_withoutSecrets (b : ClientBuilder) :
    b.withoutSecrets.shown = b.shown := by
  rw [shown, withoutSecrets, Credential.shownSecret_presence, Credential.shownSecret_presence,
    ClientConfig.shown_withoutSecret]
  rfl

/-! ### What is resolved -/

/-- The choice among credentials looks at which ones there are and not at their texts. -/
theorem Credential.select_presence (xpriv xpub accessKey : Option String) :
    select (presence xpriv) xpub (presence accessKey) =
      ((select xpriv xpub accessKey).1.map withoutSecret, (select xpriv xpub accessKey).2) := by
  cases accessKey with
  | some key => cases xpriv <;> cases xpub <;> rfl
  | none =>
    cases xpriv with
    | some key => cases xpub <;> rfl
    | none => cases xpub <;> rfl

theorem ClientSettings.toConfig_withoutSecrets (s : ClientSettings) :
    s.withoutSecrets.toConfig = (s.toConfig.1.withoutSecret, s.toConfig.2) := by
  rw [toConfig, withoutSecrets, Credential.select_presence]
  rfl

namespace ClientBuilder

theorem apply_withoutSecrets (b : ClientBuilder) (step : Step) :
    b.withoutSecrets.apply step.withoutSecrets = (b.apply step).withoutSecrets := by
  cases step with
  | config c => rfl
  | baseUrl url => rfl
  | timeout d => rfl
  | connectTimeout d => rfl
  | xpriv text => rfl
  | xpub text => rfl
  | accessKey text => rfl

theorem foldl_withoutSecrets (b : ClientBuilder) (steps : List Step) :
    (steps.map Step.withoutSecrets).foldl apply b.withoutSecrets =
      (steps.foldl apply b).withoutSecrets := by
  induction steps generalizing b with
  | nil => rfl
  | cons step steps ih =>
    rw [List.map_cons, List.foldl_cons, List.foldl_cons, apply_withoutSecrets, ih]

theorem scanl_withoutSecrets (b : ClientBuilder) (steps : List Step) :
    (steps.map Step.withoutSecrets).scanl apply b.withoutSecrets =
      (steps.scanl apply b).map withoutSecrets := by
  induction steps generalizing b with
  | nil => rfl
  | cons step steps ih =>
    rw [List.map_cons, List.scanl_cons, List.scanl_cons, apply_withoutSecrets, ih]
    rfl

theorem resolve_withoutSecrets (b : ClientBuilder) :
    b.withoutSecrets.resolve = (b.resolve.1.withoutSecret, b.resolve.2) := by
  have hpresence := Credential.select_presence b.xpriv b.xpub b.accessKey
  rw [resolve, resolve, withoutSecrets]
  simp only [hpresence]
  cases Credential.select b.xpriv b.xpub b.accessKey with
  | mk selected log =>
    cases selected with
    | none => rfl
    | some c => rfl

end ClientBuilder

namespace Setup

/-- **The texts of secret keys do not change what is resolved**, apart from the one that is used,
nor what is logged. -/
theorem resolve_withoutSecrets (s : Setup) :
    s.withoutSecrets.resolve = (s.resolve.1.withoutSecret, s.resolve.2) := by
  cases s with
  | settings s => exact s.toConfig_withoutSecrets
  | calls steps =>
    have hempty : ClientBuilder.empty.withoutSecrets = ClientBuilder.empty := rfl
    rw [withoutSecrets, resolve, ← hempty, ClientBuilder.foldl_withoutSecrets,
      ClientBuilder.resolve_withoutSecrets]
    rfl

theorem given_withoutSecrets (s : Setup) : s.withoutSecrets.given = s.given := by
  cases s with
  | settings s => exact congrArg (· :: []) s.shown_withoutSecrets
  | calls steps =>
    have hempty : ClientBuilder.empty.withoutSecrets = ClientBuilder.empty := rfl
    rw [withoutSecrets, given, given, ← hempty, ClientBuilder.scanl_withoutSecrets, List.map_map]
    exact List.map_congr_left fun b _ => b.shown_withoutSecrets

/-- **The texts of secret keys do not change what is shown.** -/
theorem shown_withoutSecrets (s : Setup) : s.withoutSecrets.shown = s.shown := by
  rw [shown, shown, given_withoutSecrets, resolve_withoutSecrets,
    ClientConfig.shown_withoutSecret, ClientConfig.withoutSecret,
    Credential.option_shown_withoutSecret]

end Setup

/-! ### The client -/

/-- The mode that a credential stands for. -/
def Credential.mode : Option Credential → AuthMode
  | none => .noAuth
  | some (.xpriv _) => .signedWithDerivedKey
  | some (.xpub _) => .publicKeyOnly
  | some (.accessKey _) => .signedWithAccessKey

theorem Credential.mode_withoutSecret (c : Option Credential) :
    mode (c.map withoutSecret) = mode c := by
  match c with
  | none => rfl
  | some (.xpriv _) => rfl
  | some (.xpub _) => rfl
  | some (.accessKey _) => rfl

theorem Authenticator.mode_of_ofCredential {c : Option Credential} {a : Authenticator}
    (h : ofCredential c = .ok a) : a.mode = Credential.mode c := by
  match c with
  | none =>
    obtain rfl := Except.ok.inj h
    rfl
  | some (.xpriv _) =>
    obtain ⟨key, -, rfl⟩ := ofCredential_xpriv h
    rfl
  | some (.xpub _) =>
    obtain ⟨key, -, rfl⟩ := ofCredential_xpub h
    rfl
  | some (.accessKey _) =>
    obtain ⟨key, -, rfl⟩ := ofCredential_accessKey h
    rfl

/-- Two clients have the same base and the same mode. -/
structure Client.LooksLike (c c' : Client) : Prop where
  baseUrl : c.baseUrl = c'.baseUrl
  mode : c.auth.mode = c'.auth.mode

/-- **Clients of configurations that differ in a secret text look alike**, and the same is logged
when they are made. -/
theorem Client.looksLike_of_ofConfig {config config' : ClientConfig}
    (h : config.withoutSecret = config'.withoutSecret) {c c' : Client} {log log' : List LogEvent}
    (hc : ofConfig config = (.ok c, log)) (hc' : ofConfig config' = (.ok c', log')) :
    c.LooksLike c' ∧ log = log' := by
  obtain ⟨hauth, hurl, rfl⟩ := ofConfig_eq_ok hc
  obtain ⟨hauth', hurl', rfl⟩ := ofConfig_eq_ok hc'
  obtain ⟨hbase, -, -, hcredential⟩ := ClientConfig.mk.inj h
  have hlooks : c.LooksLike c' := by
    constructor
    · rw [hbase, hurl'] at hurl
      exact (Except.ok.inj hurl).symm
    · rw [Authenticator.mode_of_ofCredential hauth, Authenticator.mode_of_ofCredential hauth',
        ← Credential.mode_withoutSecret, hcredential, Credential.mode_withoutSecret]
  exact ⟨hlooks, by rw [hlooks.baseUrl, hlooks.mode]⟩

theorem Setup.ofConfig_of_connect {s : Setup} {c : Client} {log : List LogEvent}
    (h : s.connect = (.ok c, log)) :
    ∃ making, Client.ofConfig s.resolve.1 = (.ok c, making) ∧ s.resolve.2 ++ making = log := by
  obtain ⟨hmade, hlog⟩ := Prod.ext_iff.mp h
  exact ⟨(Client.ofConfig s.resolve.1).2, Prod.ext hmade rfl, hlog⟩

/-- **Setups that differ in the texts of secret keys make clients that look alike**, and the same is
logged on the way. -/
theorem Setup.looksLike_of_connect {s s' : Setup} (h : s.withoutSecrets = s'.withoutSecrets)
    {c c' : Client} {log log' : List LogEvent} (hc : s.connect = (.ok c, log))
    (hc' : s'.connect = (.ok c', log')) : c.LooksLike c' ∧ log = log' := by
  have hresolve := congrArg Setup.resolve h
  rw [resolve_withoutSecrets, resolve_withoutSecrets] at hresolve
  obtain ⟨hconfig, hselected⟩ := Prod.ext_iff.mp hresolve
  obtain ⟨making, hmaking, rfl⟩ := ofConfig_of_connect hc
  obtain ⟨making', hmaking', rfl⟩ := ofConfig_of_connect hc'
  obtain ⟨hlooks, hlog⟩ := Client.looksLike_of_ofConfig hconfig hmaking hmaking'
  exact ⟨hlooks, by rw [hselected, hlog]⟩

end WalletApi
