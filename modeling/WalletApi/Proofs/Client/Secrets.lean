import WalletApi.Proofs.Auth.Failures
import WalletApi.Proofs.Client.Redaction

/-!
# Secrets are not told

Two clients that differ in their secret keys are given the same calls, random bytes, times and
responses. Their requests differ, in the headers, but the log of a call reads only the address, the
mode, the length of the body and the status of the response. Whether there is a request at all
depends on the random bytes and not on the key, as far as the arithmetic of the keys does not fail.
So the logs are the same, and so are the values that the calls answer:

* `WalletApi.Client.call_alike` – one call;
* `WalletApi.Client.runLog_eq` – a run;
* `WalletApi.Setup.secrets_untold` – from the setup on, with what is shown.
-/

namespace WalletApi

/-! ### Outcomes that log the same -/

/-- Two outcomes have logged the same and answer the same value, if any. -/
structure Outcome.Alike {α : Type} (o o' : Outcome α) : Prop where
  log : o.log = o'.log
  value : ∀ a, o.result = .ok a ↔ o'.result = .ok a

namespace Outcome

variable {α β : Type} {o o' : Outcome α}

theorem alike_failed (e e' : ClientError) : (failed e : Outcome α).Alike (failed e') :=
  ⟨rfl, fun _ => ⟨fun h => (nomatch h), fun h => (nomatch h)⟩⟩

theorem Alike.map (h : o.Alike o') (f : α → β) : (o.map f).Alike (o'.map f) where
  log := h.log
  value b := by
    rw [Outcome.map, Outcome.map, map_eq_ok, map_eq_ok]
    exact exists_congr fun a => and_congr_left fun _ => h.value a

/-- Outcomes stay alike when they go on in the same way. -/
theorem Alike.bind (h : o.Alike o') (f : α → Outcome β) : (o.bind f).Alike (o'.bind f) := by
  rw [Outcome.bind, Outcome.bind]
  cases hresult : o.result with
  | ok a =>
    rw [(h.value a).mp hresult, h.log]
    exact ⟨rfl, fun _ => Iff.rfl⟩
  | error e =>
    cases hresult' : o'.result with
    | ok a => cases hresult.symm.trans ((h.value a).mpr hresult')
    | error e' =>
      refine ⟨h.log, fun b => iff_of_false ?_ ?_⟩
      · intro hvalue
        cases hvalue
      · intro hvalue
        cases hvalue

end Outcome

/-! ### One call -/

namespace Client

variable {c c' : Client} (hlooks : c.LooksLike c')

include hlooks

theorem LooksLike.url (endpoint : String) : c.url endpoint = c'.url endpoint := by
  rw [Client.url, Client.url, hlooks.baseUrl]

theorem LooksLike.listingUrl (q : TransactionsQuery) : c.listingUrl q = c'.listingUrl q := by
  rw [Client.listingUrl, Client.listingUrl, hlooks.url]

variable {body : Bytes} {moment : Moment}
  (hauth : (∃ h, c.auth.append plainHeaders body moment = .ok h) ↔
    ∃ h, c'.auth.append plainHeaders body moment = .ok h)

include hauth

/-- Requests that are both authenticated, or both not, are logged alike and get the same response.
-/
theorem send_alike (delivery : Delivery) (method : Method) (url : Url) :
    (c.send (fun _ => delivery) method url body moment).Alike
      (c'.send (fun _ => delivery) method url body moment) := by
  cases happ : c.auth.append plainHeaders body moment with
  | error e =>
    cases happ' : c'.auth.append plainHeaders body moment with
    | error e' =>
      rw [send_of_append_error _ _ _ happ, send_of_append_error _ _ _ happ']
      exact Outcome.alike_failed _ _
    | ok h' =>
      obtain ⟨h, hok⟩ := hauth.mpr ⟨h', happ'⟩
      exact nomatch happ.symm.trans hok
  | ok h =>
    obtain ⟨h', happ'⟩ := hauth.mp ⟨h, happ⟩
    -- The event tells the mode and the length of the body and none of the headers.
    have hevent : c.sendingEvent method url body = c'.sendingEvent method url body := by
      rw [sendingEvent, sendingEvent, hlooks.mode]
    rw [send, send, request, request, happ, happ']
    exact ⟨congrArg (· :: []) hevent, fun _ => Iff.rfl⟩

theorem exchangeAt_alike {α : Type} (delivery : Delivery) (r : Json.Reader α) (method : Method)
    (endpoint : String) :
    (c.exchangeAt (fun _ => delivery) r method endpoint body moment).Alike
      (c'.exchangeAt (fun _ => delivery) r method endpoint body moment) := by
  rw [exchangeAt, exchangeAt, hlooks.url]
  cases c'.url endpoint with
  | error e => exact Outcome.alike_failed e e
  | ok url => exact (send_alike hlooks hauth delivery method url).bind _

omit hauth in
/-- **Calls that are both authenticated, or both not, are logged alike** and answer the same. -/
theorem call_alike (delivery : Delivery) {call : FacadeCall}
    (hauth : (∃ h, c.auth.append plainHeaders call.body moment = .ok h) ↔
      ∃ h, c'.auth.append plainHeaders call.body moment = .ok h) :
    (c.call (fun _ => delivery) call moment).Alike
      (c'.call (fun _ => delivery) call moment) := by
  cases call with
  | transactions q =>
    rw [Client.call, Client.call, transactions, transactions, hlooks.listingUrl]
    cases c'.listingUrl q with
    | error e => exact Outcome.alike_failed e e
    | ok url => exact (((send_alike hlooks hauth delivery .get url).bind _).map _).map _
  | transaction id => exact (exchangeAt_alike hlooks hauth delivery _ _ _).map _
  | draftTransaction r => exact (exchangeAt_alike hlooks hauth delivery _ _ _).map _
  | recordTransaction r => exact (exchangeAt_alike hlooks hauth delivery _ _ _).map _
  | updateTransactionMetadata r => exact (exchangeAt_alike hlooks hauth delivery _ _ _).map _
  | sharedConfig => exact (exchangeAt_alike hlooks hauth delivery _ _ _).map _

end Client

/-! ### Runs -/

/-- A call, what becomes of its request, and what the moment brings. -/
structure Exchange where
  call : FacadeCall
  delivery : Delivery
  moment : Moment

namespace Exchange

/-- The step of a run in which the request meets its delivery, whatever the request is. -/
def step (e : Exchange) : Step := ⟨e.call, fun _ => e.delivery, e.moment⟩

/-- The arithmetic of the keys does not fail the call. -/
def IsComputedBy (e : Exchange) (c : Client) : Prop := c.auth.Computes e.call.body e.moment

end Exchange

namespace Client

variable {c c' : Client}

/-- Clients that look alike authenticate the same calls. -/
theorem exists_append_iff_of_looksLike (hlooks : c.LooksLike c') (hlevels : c.auth.HasLevels 8)
    (hlevels' : c'.auth.HasLevels 8) {body : Bytes} {moment : Moment}
    (hcomputes : c.auth.Computes body moment) (hcomputes' : c'.auth.Computes body moment) :
    (∃ h, c.auth.append plainHeaders body moment = .ok h) ↔
      ∃ h, c'.auth.append plainHeaders body moment = .ok h := by
  rw [Authenticator.exists_append_iff hlevels hcomputes,
    Authenticator.exists_append_iff hlevels' hcomputes', hlooks.mode]

/-- **A run of clients that look alike**: each call is logged alike and answers the same. -/
theorem forall₂_alike_run (hlooks : c.LooksLike c') (hlevels : c.auth.HasLevels 8)
    (hlevels' : c'.auth.HasLevels 8) {exchanges : List Exchange}
    (hcomputed : ∀ e ∈ exchanges, e.IsComputedBy c)
    (hcomputed' : ∀ e ∈ exchanges, e.IsComputedBy c') :
    List.Forall₂ Outcome.Alike (c.run (exchanges.map Exchange.step))
      (c'.run (exchanges.map Exchange.step)) := by
  induction exchanges with
  | nil => exact .nil
  | cons e exchanges ih =>
    obtain ⟨hfirst, hrest⟩ := List.forall_mem_cons.mp hcomputed
    obtain ⟨hfirst', hrest'⟩ := List.forall_mem_cons.mp hcomputed'
    have hauth := exists_append_iff_of_looksLike hlooks hlevels hlevels' hfirst hfirst'
    exact .cons (call_alike hlooks e.delivery hauth) (ih hrest hrest')

/-- Outcomes that are alike one by one have logged the same. -/
theorem flatMap_log_of_alike {outcomes outcomes' : List (Outcome Answer)}
    (h : List.Forall₂ Outcome.Alike outcomes outcomes') :
    outcomes.flatMap Outcome.log = outcomes'.flatMap Outcome.log := by
  induction h with
  | nil => rfl
  | cons halike _ ih => rw [List.flatMap_cons, List.flatMap_cons, halike.log, ih]

/-- **Clients that look alike leave the same log.** -/
theorem runLog_eq (hlooks : c.LooksLike c') (hlevels : c.auth.HasLevels 8)
    (hlevels' : c'.auth.HasLevels 8) {exchanges : List Exchange}
    (hcomputed : ∀ e ∈ exchanges, e.IsComputedBy c)
    (hcomputed' : ∀ e ∈ exchanges, e.IsComputedBy c') :
    c.runLog (exchanges.map Exchange.step) = c'.runLog (exchanges.map Exchange.step) :=
  flatMap_log_of_alike (forall₂_alike_run hlooks hlevels hlevels' hcomputed hcomputed')

end Client

/-! ### From the setup on -/

/-- An extended key of depth 247 or less has the levels that nonces need. -/
theorem Authenticator.hasLevels_of_depth {a : Authenticator}
    (h : ∀ master, a = .extendedKey master → master.depth.toNat ≤ 247) : a.HasLevels 8 :=
  fun master hmaster => Nat.add_le_add_right (h master hmaster) 8

/-- **The texts of secret keys are told by nothing that is shown or logged.** Two setups that differ
in these texts only, and both make a client, show the same on the way and afterwards, choose and
connect with the same log, and leave the same log along every run of the same calls with the same
random bytes, times and responses. -/
theorem Setup.secrets_untold {s s' : Setup} (hsame : s.withoutSecrets = s'.withoutSecrets)
    {c c' : Client} {log log' : List LogEvent} (hc : s.connect = (.ok c, log))
    (hc' : s'.connect = (.ok c', log'))
    (hdepth : ∀ master, c.auth = .extendedKey master → master.depth.toNat ≤ 247)
    (hdepth' : ∀ master, c'.auth = .extendedKey master → master.depth.toNat ≤ 247) :
    s.shown = s'.shown ∧ c.auth.shown = c'.auth.shown ∧ s.resolve.2 = s'.resolve.2 ∧ log = log' ∧
      ∀ exchanges : List Exchange, (∀ e ∈ exchanges, e.IsComputedBy c) →
        (∀ e ∈ exchanges, e.IsComputedBy c') →
        c.runLog (exchanges.map Exchange.step) = c'.runLog (exchanges.map Exchange.step) := by
  obtain ⟨hlooks, hlog⟩ := looksLike_of_connect hsame hc hc'
  refine ⟨?_, ?_, ?_, hlog, fun exchanges hcomputed hcomputed' => ?_⟩
  · rw [← s.shown_withoutSecrets, hsame, s'.shown_withoutSecrets]
  · rw [Authenticator.shown, Authenticator.shown, hlooks.mode]
  · have hresolve := congrArg Setup.resolve hsame
    rw [resolve_withoutSecrets, resolve_withoutSecrets] at hresolve
    exact (Prod.ext_iff.mp hresolve).2
  · exact Client.runLog_eq hlooks (Authenticator.hasLevels_of_depth hdepth)
      (Authenticator.hasLevels_of_depth hdepth') hcomputed hcomputed'

/-! ### Two texts of one key -/

namespace Setup

/-- The wallet import text of the secret key one. -/
def keyOneImport : String := "KwDiBf89QgGbjEhKnhXJuH7LrciVrZi3qYjgd9M7rFU73sVHnoWn"

/-- An access key beside a text for an extended key, which is not used. -/
def twoKeys (accessKey xpriv : String) : Setup := .calls [.accessKey accessKey, .xpriv xpriv]

/-- A call for the shared settings that the server refuses. -/
def refusedExchange : Exchange := ⟨.sharedConfig, .answered ⟨403, []⟩, Authenticator.zeroMoment⟩

theorem ofCredential_keyOneImport :
    Authenticator.ofCredential (some (.accessKey keyOneImport)) =
      .ok (.accessKey Authenticator.keyOne) := by decide +kernel

theorem exists_connect_twoKeys {accessKey : String} {a : Authenticator}
    (h : Authenticator.ofCredential (some (.accessKey accessKey)) = .ok a) (xpriv : String) :
    ∃ c log, (twoKeys accessKey xpriv).connect = (.ok c, log) ∧ c.auth = a := by
  have hbase : (Client.readBaseUrl ClientConfig.default.baseUrl).toOption.isSome = true := by
    decide +kernel
  have hresolve : (twoKeys accessKey xpriv).resolve.1 =
      { ClientConfig.default with credential := some (.accessKey accessKey) } := rfl
  rw [connect, hresolve, Client.ofConfig]
  simp only [h]
  cases hurl : Client.readBaseUrl ClientConfig.default.baseUrl with
  | error e =>
    rw [hurl] at hbase
    cases hbase
  | ok url => exact ⟨_, _, rfl, rfl⟩

theorem isComputedBy_keyOne {c : Client} (h : c.auth = .accessKey Authenticator.keyOne) :
    refusedExchange.IsComputedBy c := by
  intro map e he
  obtain ⟨map', hok⟩ : ∃ map', (Authenticator.accessKey Authenticator.keyOne).append map []
      Authenticator.zeroMoment = .ok map' :=
    Authenticator.append_accessKey_of_sign? rfl Authenticator.isSome_sign?_keyOne
  rw [h] at he
  exact nomatch hok.symm.trans he

/-- The two texts of the secret key one, each beside another text that is not used, leave no trace
in the log of a call that the server refuses. -/
theorem secrets_untold_keyOne :
    ∃ c c' log log', (twoKeys Authenticator.keyOneText "first").connect = (.ok c, log) ∧
      (twoKeys keyOneImport "second").connect = (.ok c', log') ∧ log = log' ∧
      (twoKeys Authenticator.keyOneText "first").shown = (twoKeys keyOneImport "second").shown ∧
      c.runLog [refusedExchange.step] = c'.runLog [refusedExchange.step] := by
  obtain ⟨c, log, hc, hauth⟩ := exists_connect_twoKeys Authenticator.ofCredential_keyOneText "first"
  obtain ⟨c', log', hc', hauth'⟩ := exists_connect_twoKeys ofCredential_keyOneImport "second"
  have hkey : ∀ {a : Authenticator}, a = .accessKey Authenticator.keyOne →
      ∀ master, a = .extendedKey master → master.depth.toNat ≤ 247 := by
    rintro _ rfl master hmaster
    exact nomatch hmaster
  have hall : ∀ {c : Client}, c.auth = .accessKey Authenticator.keyOne →
      ∀ e ∈ [refusedExchange], e.IsComputedBy c := fun h e he =>
    List.mem_singleton.mp he ▸ isComputedBy_keyOne h
  have hsame : (twoKeys Authenticator.keyOneText "first").withoutSecrets =
      (twoKeys keyOneImport "second").withoutSecrets := rfl
  obtain ⟨hshown, -, -, hlog, hrun⟩ :=
    secrets_untold hsame hc hc' (hkey hauth) (hkey hauth')
  exact ⟨c, c', log, log', hc, hc', hlog, hshown,
    hrun [refusedExchange] (hall hauth) (hall hauth')⟩

end Setup

end WalletApi
