import WalletApi.Proofs.Client.Runs
import WalletApi.Proofs.Key.Extended

/-!
# Whom requests name

A client with an extended key names the public half of the key in every request that it sends, as
the text of that half (`WalletApi.Client.names_of_namedKey?`). Whether it was configured with the
secret key or with the text of the public half does not show there, and a configured public key is
named as it was written. Together with what is known of the texts of extended keys this is
`WalletApi.ExtendedKey.text_and_identity`.
-/

namespace WalletApi

/-! ### The key that is named -/

namespace Authenticator

variable {a : Authenticator} {body : Bytes} {moment : Moment}

/-- The extended public key that the requests of an authenticator name. -/
def namedKey? : Authenticator → Option Xpub
  | .noAuth => none
  | .publicKeyOnly key => some key
  | .accessKey _ => none
  | .extendedKey master => some master.publicHalf

/-- What is issued names the key. -/
theorem Issues.xpub_mem {fields : List (String × String)} (h : a.Issues body moment fields)
    {key : Xpub} (hkey : a.namedKey? = some key) : (xpubHeader, key.text) ∈ fields := by
  cases h with
  | noAuth => exact nomatch hkey
  | publicKeyOnly =>
    obtain rfl := Option.some.inj hkey
    exact List.mem_singleton_self _
  | accessKey hp => exact nomatch hkey
  | extendedKey hp =>
    obtain rfl := Option.some.inj hkey
    obtain ⟨bytes, child, σ, -, -, -, rfl⟩ := AuthPayload.forXpriv_eq_ok.mp hp
    exact List.mem_cons_self

/-- **The one value of the identity header is the text of the key.** -/
theorem values_xpubHeader {key : Xpub} (hkey : a.namedKey? = some key) {h h' : HeaderMap}
    (happ : a.append h body moment = .ok h') : h'.values xpubHeader = [key.text] := by
  obtain ⟨fields, hissues, -, hvalues, -⟩ := isWritten_of_append happ
  exact hvalues _ (hissues.xpub_mem hkey)

theorem ofCredential_of_xpriv {s : String} {x : Xpriv} (h : Xpriv.ofText s = .ok x) :
    ofCredential (some (.xpriv s)) = .ok (.extendedKey x) := by
  rw [ofCredential, h]

theorem ofCredential_of_xpub {s : String} {y : Xpub} (h : Xpub.ofText s = .ok y) :
    ofCredential (some (.xpub s)) = .ok (.publicKeyOnly y) := by
  rw [ofCredential, h]

end Authenticator

/-! ### Requests -/

namespace Client

variable {c : Client}

/-- **A request that is sent has the headers of its call.** -/
theorem append_of_mem_sent {transport : Transport} {call : FacadeCall} {moment : Moment}
    {r : Request} (hr : r ∈ (c.call transport call moment).sent) :
    c.auth.append plainHeaders call.body moment = .ok r.headers := by
  rw [(c.call_extends transport call moment).sent] at hr
  cases hurl : call.url c with
  | error e =>
    rw [hurl] at hr
    exact absurd hr List.not_mem_nil
  | ok u =>
    rw [hurl, sendTo] at hr
    cases happ : c.auth.append plainHeaders call.body moment with
    | error e =>
      rw [send_of_append_error _ _ _ happ] at hr
      exact absurd hr List.not_mem_nil
    | ok headers =>
      rw [(send_of_append_ok _ _ _ happ).1] at hr
      rw [List.mem_singleton.mp hr]

/-- **The client names its owner with `text`**, in whatever map it writes its headers into and in
every request that it sends. -/
structure Names (c : Client) (text : String) : Prop where
  written : ∀ body moment h h', c.auth.append h body moment = .ok h' →
    h'.values xpubHeader = [text]
  sent : ∀ transport call moment, ∀ r ∈ (c.call transport call moment).sent,
    r.headers.values xpubHeader = [text]

theorem names_of_namedKey? {key : Xpub} (hkey : c.auth.namedKey? = some key) :
    c.Names key.text where
  written _ _ _ _ happ := Authenticator.values_xpubHeader hkey happ
  sent _ _ _ _ hr := Authenticator.values_xpubHeader hkey (append_of_mem_sent hr)

/-- **A configuration with a credential that is read as a key, and with an address, makes a client
that names the key.** -/
theorem exists_names {credential : Credential} {a : Authenticator} {key : Xpub}
    (hauth : Authenticator.ofCredential (some credential) = .ok a) (hkey : a.namedKey? = some key)
    (config : ClientConfig) {base : Url} (hbase : readBaseUrl config.baseUrl = .ok base) :
    ∃ c log, ofConfig { config with credential := some credential } = (.ok c, log) ∧
      c.auth = a ∧ c.Names key.text := by
  rw [ofConfig, hauth, hbase]
  exact ⟨⟨base, a⟩, _, rfl, rfl, names_of_namedKey? hkey⟩

end Client

/-! ### Texts and identities -/

namespace ExtendedKey

theorem read_xpriv_text (x : Xpriv) : read x.text = .ok (.secret x) :=
  read_eq_ok_iff.mpr (.inl (ofXpriv_eq_ok_iff.mpr ⟨x, Xpriv.ofText_text x, rfl⟩))

theorem read_xpub_text (y : Xpub) : read y.text = .ok (.shared y) :=
  read_eq_ok_iff.mpr (.inr (ofXpub_eq_ok_iff.mpr ⟨y, Xpub.ofText_text y, rfl⟩))

/-- **A client with a public extended key names it**, and never fails to. -/
theorem exists_client_of_xpub {s : String} {y : Xpub} (h : Xpub.ofText s = .ok y)
    (config : ClientConfig) {base : Url} (hbase : Client.readBaseUrl config.baseUrl = .ok base) :
    ∃ c log, Client.ofConfig { config with credential := some (.xpub s) } = (.ok c, log) ∧
      c.Names y.text ∧ ∀ body moment map, ∃ map', c.auth.append map body moment = .ok map' := by
  obtain ⟨c, log, hclient, hauth, hnames⟩ :=
    Client.exists_names (Authenticator.ofCredential_of_xpub h) rfl config hbase
  refine ⟨c, log, hclient, hnames, fun body moment map => ?_⟩
  rw [hauth]
  exact ⟨_, Authenticator.append_eq_ok.mpr ⟨_, .publicKeyOnly, rfl⟩⟩

/-- **A client with a secret extended key names its public half**, wherever it can sign. -/
theorem exists_client_of_xpriv {s : String} {x : Xpriv} (h : Xpriv.ofText s = .ok x)
    (config : ClientConfig) {base : Url} (hbase : Client.readBaseUrl config.baseUrl = .ok base) :
    ∃ c log, Client.ofConfig { config with credential := some (.xpriv s) } = (.ok c, log) ∧
      c.Names x.publicHalf.text ∧ ∀ body moment p, AuthPayload.forXpriv x body moment = .ok p →
        ∀ map, ∃ map', c.auth.append map body moment = .ok map' := by
  obtain ⟨c, log, hclient, hauth, hnames⟩ :=
    Client.exists_names (Authenticator.ofCredential_of_xpriv h) rfl config hbase
  refine ⟨c, log, hclient, hnames, fun body moment p hp map => ?_⟩
  rw [hauth]
  exact ⟨_, Authenticator.append_eq_ok.mpr ⟨_, .extendedKey hp, rfl⟩⟩

/-- **Extended keys, their texts and the identity that clients show.**

* The text of a key of either kind is read as that key.
* No text is read as a key of both kinds, and the reader of both kinds takes exactly what one of the
  two takes, as a key of that kind.
* The text of a public key is the one that it was read from without the blanks around it, and a
  client with this credential names itself so.
* The text of the public half of a secret key is read as this half, and a client that is configured
  with the secret key names itself as one that is configured with the text of the half. -/
theorem text_and_identity :
    (∀ x : Xpriv, read x.text = .ok (.secret x)) ∧
    (∀ y : Xpub, read y.text = .ok (.shared y)) ∧
    (∀ s k, ofXpriv s = .ok k → (∃ x, k = .secret x) ∧ ∀ k', ofXpub s ≠ .ok k') ∧
    (∀ s k, ofXpub s = .ok k → (∃ y, k = .shared y) ∧ ∀ k', ofXpriv s ≠ .ok k') ∧
    (∀ s k, read s = .ok k ↔ ofXpriv s = .ok k ∨ ofXpub s = .ok k) ∧
    (∀ s k, ofXpub s = .ok k →
      k.xpub.text = String.ofList (Text.trim s.toList) ∧
      ∀ (config : ClientConfig) (base : Url), Client.readBaseUrl config.baseUrl = .ok base →
        ∃ c log, Client.ofConfig { config with credential := some (.xpub s) } = (.ok c, log) ∧
          c.Names (String.ofList (Text.trim s.toList)) ∧
          ∀ body moment map, ∃ map', c.auth.append map body moment = .ok map') ∧
    ∀ s x, ofXpriv s = .ok (.secret x) →
      ofXpub (ExtendedKey.secret x).xpub.text = .ok (.shared x.publicHalf) ∧
      ∀ (config : ClientConfig) (base : Url), Client.readBaseUrl config.baseUrl = .ok base →
        ∃ c c' log log',
          Client.ofConfig { config with credential := some (.xpriv s) } = (.ok c, log) ∧
          Client.ofConfig { config with credential := some (.xpub x.publicHalf.text) } =
            (.ok c', log') ∧
          c.Names x.publicHalf.text ∧ c'.Names x.publicHalf.text ∧
          (∀ body moment p, AuthPayload.forXpriv x body moment = .ok p →
            ∀ map, ∃ map', c.auth.append map body moment = .ok map') ∧
          ∀ body moment map, ∃ map', c'.auth.append map body moment = .ok map' := by
  refine ⟨read_xpriv_text, read_xpub_text, fun s k h => ?_, fun s k h => ?_,
    fun s k => read_eq_ok_iff, fun s k h => ?_, fun s x h => ?_⟩
  · obtain ⟨x, -, hk⟩ := ofXpriv_eq_ok_iff.mp h
    exact ⟨⟨x, hk⟩, ofXpub_ne_of_ofXpriv h⟩
  · obtain ⟨y, -, hk⟩ := ofXpub_eq_ok_iff.mp h
    exact ⟨⟨y, hk⟩, fun k' hk' => ofXpub_ne_of_ofXpriv hk' k h⟩
  · obtain ⟨y, hy, rfl⟩ := ofXpub_eq_ok_iff.mp h
    have htext := Xpub.text_of_ofText hy
    refine ⟨htext, fun config base hbase => ?_⟩
    rw [← htext]
    exact exists_client_of_xpub hy config hbase
  · obtain ⟨x', hx, hsecret⟩ := ofXpriv_eq_ok_iff.mp h
    obtain rfl := ExtendedKey.secret.inj hsecret
    have hhalf := Xpub.ofText_text x.publicHalf
    refine ⟨ofXpub_eq_ok_iff.mpr ⟨_, hhalf, rfl⟩, fun config base hbase => ?_⟩
    obtain ⟨c, log, hclient, hnames, hwrites⟩ := exists_client_of_xpriv hx config hbase
    obtain ⟨c', log', hclient', hnames', hwrites'⟩ := exists_client_of_xpub hhalf config hbase
    exact ⟨c, c', log, log', hclient, hclient', hnames, hnames', hwrites, hwrites'⟩

end ExtendedKey

end WalletApi
