import WalletApi.Proofs.Auth.Verification
import WalletApi.Proofs.Client.Requests

/-!
# Runs of calls

A call sends one request or none, and it sends none only where the request cannot be authenticated
or, for a listing, the query cannot be built: below a base with segments the address of every
endpoint exists (`WalletApi.FacadeCall.exists_url_iff`), whatever the identifiers in it are. What is
sent carries the headers of that one call, and they cover exactly the bytes that follow them
(`WalletApi.Request.Carries`).

A client keeps nothing between calls, so what holds of one step holds along a run of any length. The
log of a run tells of the requests of the run, one event each and in the same order:

* `WalletApi.Client.accounts_call` – one call;
* `WalletApi.Client.run_accounts` – a run.
-/

namespace WalletApi

/-! ### Addresses of endpoints -/

namespace Client

variable {c : Client}

/-- **A client that was made** has read its key and its base, and this is logged. -/
theorem ofConfig_eq_ok {config : ClientConfig} {log : List LogEvent}
    (hclient : ofConfig config = (.ok c, log)) :
    Authenticator.ofCredential config.credential = .ok c.auth ∧
      readBaseUrl config.baseUrl = .ok c.baseUrl ∧
      log = [{ level := .info
               message := "spv wallet client created"
               fields := [("base_url", c.baseUrl.text), ("mode", c.auth.mode.name)] }] := by
  rw [ofConfig] at hclient
  split at hclient
  · exact absurd (Prod.ext_iff.mp hclient).1 (by simp)
  · next auth hauth =>
    split at hclient
    · exact absurd (Prod.ext_iff.mp hclient).1 (by simp)
    · next url hurl =>
      obtain ⟨hc, rfl⟩ := Prod.ext_iff.mp hclient
      obtain rfl := Except.ok.inj hc
      exact ⟨hauth, hurl, rfl⟩

/-- The base of a client is the address that was configured, closed by a slash. -/
theorem baseUrl_of_ofConfig {config : ClientConfig} {log : List LogEvent}
    (hclient : ofConfig config = (.ok c, log)) :
    ∃ u, Url.ofText config.baseUrl = .ok u ∧ c.baseUrl = u.closePath := by
  obtain ⟨-, hurl, -⟩ := ofConfig_eq_ok hclient
  obtain ⟨u, hu, hbase⟩ := map_eq_ok.mp hurl
  exact ⟨u, mapError_eq_ok.mp hu, hbase.symm⟩

/-- The address that was configured has segments where it is that of a web server. -/
theorem isHierarchical_of_ofText {s : String} {u : Url} (hu : Url.ofText s = .ok u)
    (hscheme : u.scheme = "http".toList ∨ u.scheme = "https".toList) : u.IsHierarchical := by
  refine Url.isHierarchical_of_ofText hu ?_ ?_
  · rcases hscheme with h | h <;> rw [h] <;> decide
  · rcases hscheme with h | h <;> rw [h] <;> decide

/-- The base of a client of a web server has segments. -/
theorem isHierarchical_baseUrl {config : ClientConfig} {log : List LogEvent}
    (hclient : ofConfig config = (.ok c, log))
    (hscheme : c.baseUrl.scheme = "http".toList ∨ c.baseUrl.scheme = "https".toList) :
    c.baseUrl.IsHierarchical := by
  obtain ⟨u, hu, hbase⟩ := baseUrl_of_ofConfig hclient
  rw [hbase, Url.scheme_closePath] at hscheme
  rw [hbase]
  exact Url.isHierarchical_closePath (isHierarchical_of_ofText hu hscheme)

/-- An endpoint that begins with a letter is resolved as it is. -/
theorem url_of_isAlpha {endpoint : String} {first : Char} {rest : List Char}
    (h : endpoint.toList = first :: rest) (hfirst : first.isAlpha = true) :
    c.url endpoint = (Url.resolve (some c.baseUrl) endpoint).mapError ClientError.url := by
  have hslash : (first == '/') = false := by
    refine beq_eq_false_iff_ne.mpr ?_
    rintro rfl
    exact nomatch hfirst
  rw [url, h, List.dropWhile_cons_of_neg (by rw [hslash]; exact Bool.false_ne_true), ← h,
    String.ofList_toList]

/-- An endpoint that goes on with a slash after a name has an address. -/
theorem exists_url_of_name (hbase : c.baseUrl.IsHierarchical) {endpoint : String}
    (first : Char) (name tail : List Char) (hletters : (first :: name).all Char.isAlpha = true)
    (h : endpoint.toList = first :: name ++ '/' :: tail) : ∃ u, c.url endpoint = .ok u := by
  have hname := List.all_eq_true.mp hletters
  obtain ⟨u, hu⟩ := Url.exists_resolve_of_name hbase hname (List.cons_ne_nil _ _) h
  exact ⟨u, by rw [url_of_isAlpha h (hname first List.mem_cons_self), hu]; rfl⟩

/-- The endpoint of transactions has an address. -/
theorem exists_url_transactions (hbase : c.baseUrl.IsHierarchical) :
    ∃ u, c.url transactionsEndpoint = .ok u := by
  obtain ⟨hfile, l, hl⟩ := hbase
  have hcleaned : Url.cleaned (String.ofList (transactionsEndpoint.toList.dropWhile (· == '/'))) =
      't' :: "ransactions".toList := by decide
  rw [url, Url.resolve_of_letter hl hfile hcleaned (by decide) (by decide)]
  exact ⟨_, rfl⟩

theorem exists_url_transaction (hbase : c.baseUrl.IsHierarchical) (id : String) :
    ∃ u, c.url (transactionEndpoint id) = .ok u := by
  refine exists_url_of_name hbase 't' "ransactions".toList id.toList (by decide) ?_
  rw [transactionEndpoint, transactionsEndpoint, String.toList_append, String.toList_append]
  rfl

/-- A listing has an address where its query can be built. -/
theorem exists_listingUrl_iff (hbase : c.baseUrl.IsHierarchical) (q : TransactionsQuery) :
    (∃ u, c.listingUrl q = .ok u) ↔ ∃ values, q.build = .ok values := by
  obtain ⟨u, hu⟩ := exists_url_transactions hbase
  cases hbuild : q.build with
  | error fault =>
    have hlisting : c.listingUrl q = .error (.query fault) := by
      rw [listingUrl, hu, TransactionsQuery.encode, hbuild]
      rfl
    rw [hlisting]
    constructor
    · rintro ⟨_, h⟩
      exact nomatch h
    · rintro ⟨_, h⟩
      exact nomatch h
  | ok values =>
    -- The text decides whether the query is put into the address, but there is one either way.
    have hlisting : c.listingUrl q =
        if String.ofList (Form.encode (TransactionsQuery.pairs values)) = "" then .ok u
        else .ok (u.withQuery
          (String.ofList (Form.encode (TransactionsQuery.pairs values))).toList) := by
      rw [listingUrl, hu, TransactionsQuery.encode, hbuild]
      rfl
    refine ⟨fun _ => ⟨values, rfl⟩, fun _ => ?_⟩
    rw [hlisting]
    split
    · exact ⟨_, rfl⟩
    · exact ⟨_, rfl⟩

end Client

/-- The query of a call cannot be built. Only listings have one. -/
def FacadeCall.IsUnbuildable (call : FacadeCall) : Prop :=
  ∃ q fault, call = .transactions q ∧ q.build = .error fault

/-- **Every call has an address**, unless it is a listing whose query cannot be built. -/
theorem FacadeCall.exists_url_iff {c : Client} (hbase : c.baseUrl.IsHierarchical)
    (call : FacadeCall) : (∃ u, call.url c = .ok u) ↔ ¬ call.IsUnbuildable := by
  have hno : ∀ {P : Prop}, P → (∀ q, call ≠ .transactions q) → (P ↔ ¬ call.IsUnbuildable) := by
    intro P hp hne
    refine ⟨fun _ => ?_, fun _ => hp⟩
    rintro ⟨q, -, hcall, -⟩
    exact hne q hcall
  cases call with
  | transactions q =>
    rw [url, Client.exists_listingUrl_iff hbase]
    constructor
    · rintro ⟨values, hvalues⟩ ⟨q', fault, hcall, hfault⟩
      obtain rfl := FacadeCall.transactions.inj hcall
      rw [hvalues] at hfault
      exact absurd hfault (by simp)
    · intro h
      cases hbuild : q.build with
      | error fault => exact absurd ⟨q, fault, rfl, hbuild⟩ h
      | ok values => exact ⟨values, rfl⟩
  | transaction id =>
    exact hno (Client.exists_url_transaction hbase id) fun _ => FacadeCall.noConfusion
  | draftTransaction r =>
    refine hno ?_ fun _ => FacadeCall.noConfusion
    exact Client.exists_url_of_name hbase 't' "ransactions".toList "drafts".toList (by decide)
      (by decide)
  | recordTransaction r =>
    exact hno (Client.exists_url_transactions hbase) fun _ => FacadeCall.noConfusion
  | updateTransactionMetadata r =>
    exact hno (Client.exists_url_transaction hbase r.id) fun _ => FacadeCall.noConfusion
  | sharedConfig =>
    refine hno ?_ fun _ => FacadeCall.noConfusion
    exact Client.exists_url_of_name hbase 'c' "onfigs".toList "shared".toList (by decide)
      (by decide)

/-! ### One call -/

/-- **Why a call sends nothing.** -/
def Client.Withholds (c : Client) (call : FacadeCall) (moment : Moment) : Prop :=
  (∃ e, c.auth.append plainHeaders call.body moment = .error e) ∨ call.IsUnbuildable

/-- What is logged when a client hands over a request. -/
def Client.eventOf (c : Client) (r : Request) : LogEvent :=
  c.sendingEvent r.method r.url (r.body.getD [])

/-- **The request that a call stands for**: its headers are the content type and what the client has
issued for exactly the bytes that follow them. -/
structure Request.Carries (r : Request) (c : Client) (call : FacadeCall) (moment : Moment) :
    Prop where
  method : r.method = call.method
  url : call.url c = .ok r.url
  body : r.body = call.argument?.map Client.bodyOf
  get_iff : r.method = .get ↔ r.body = none
  headers : ∃ fields, c.auth.Issues (r.body.getD []) moment fields ∧
    fields.map Prod.fst = c.auth.mode.headerNames ∧
    r.headers.entries = ("content-type", "application/json") :: fields
  hash : c.auth.mode.signs = true → r.headers.values hashHeader = [hashBody (r.body.getD [])]

/-- A call in a run, with what becomes of its request and what the moment brings. -/
structure Step where
  call : FacadeCall
  transport : Transport
  moment : Moment

/-- **The outcome accounts for the step**: it withholds its request for a reason and with an error,
or sends the one it stands for and logs that it does. -/
structure Outcome.Accounts (o : Outcome Answer) (c : Client) (step : Step) : Prop where
  length_le : o.sent.length ≤ 1
  sent_nil_iff : o.sent = [] ↔ c.Withholds step.call step.moment
  error : c.Withholds step.call step.moment → ∃ e, o.result = .error e
  carries : ∀ r ∈ o.sent, r.Carries c step.call step.moment
  sending : o.log.filter LogEvent.isSending = o.sent.map c.eventOf

/-- A call that has no reason to send nothing sends the one request that it stands for. -/
theorem Outcome.Accounts.exists_sent {o : Outcome Answer} {c : Client} {step : Step}
    (h : o.Accounts c step) (hsends : ¬ c.Withholds step.call step.moment) :
    ∃ r, o.sent = [r] ∧ r.Carries c step.call step.moment := by
  have hpos : 0 < o.sent.length := List.length_pos_iff.mpr (mt h.sent_nil_iff.mp hsends)
  obtain ⟨r, hr⟩ := List.length_eq_one_iff.mp (Nat.le_antisymm h.length_le hpos)
  exact ⟨r, hr, h.carries r (hr ▸ List.mem_singleton_self r)⟩

namespace Client

variable {c : Client}

/-- An outcome that goes on from a failure before anything is sent. -/
theorem accounts_of_failed {o : Outcome Answer} {step : Step} {e : ClientError}
    (hextends : o.Extends (.failed e : Outcome Response))
    (hwhy : c.Withholds step.call step.moment) : o.Accounts c step where
  length_le := by
    rw [hextends.sent]
    exact Nat.zero_le 1
  sent_nil_iff := ⟨fun _ => hwhy, fun _ => hextends.sent⟩
  error _ := ⟨e, hextends.error e rfl⟩
  carries r hr := by
    rw [hextends.sent] at hr
    exact absurd hr List.not_mem_nil
  sending := by
    rw [hextends.sending, hextends.sent]
    rfl

/-- A request that a client authenticates carries what its call stands for. -/
theorem carries_of_append {call : FacadeCall} {moment : Moment} {u : Url} {headers : HeaderMap}
    (hurl : call.url c = .ok u)
    (happ : c.auth.append plainHeaders call.body moment = .ok headers) :
    Request.Carries ⟨call.method, u, headers, call.argument?.map bodyOf⟩ c call moment where
  method := rfl
  url := hurl
  body := rfl
  get_iff := by
    rw [FacadeCall.method_eq_get_iff, Option.map_eq_none_iff]
  headers := by
    obtain ⟨fields, hissues, hentries⟩ := entries_of_append happ
    exact ⟨fields, hissues, hissues.names, hentries⟩
  hash hsigns := values_hash_of_append hsigns happ

/-- **One call of a client sends the one request it stands for, or it has a reason not to.** -/
theorem accounts_call (hbase : c.baseUrl.IsHierarchical) (step : Step) :
    (c.call step.transport step.call step.moment).Accounts c step := by
  have hextends := c.call_extends step.transport step.call step.moment
  cases hurl : step.call.url c with
  | error e =>
    -- Only a query that cannot be built leaves a call without an address.
    have hunbuildable : step.call.IsUnbuildable := by
      by_contra hbuilt
      obtain ⟨u, hu⟩ := (step.call.exists_url_iff hbase).mpr hbuilt
      exact nomatch hu.symm.trans hurl
    rw [hurl] at hextends
    exact accounts_of_failed hextends (.inr hunbuildable)
  | ok u =>
    rw [hurl] at hextends
    cases happ : c.auth.append plainHeaders step.call.body step.moment with
    | error e =>
      refine accounts_of_failed (e := .auth e) ?_ (.inl ⟨e, happ⟩)
      rw [← send_of_append_error step.call.method u step.transport happ]
      exact hextends
    | ok headers =>
      obtain ⟨hsent, hlog⟩ := send_of_append_ok step.call.method u step.transport happ
      rw [FacadeCall.sent_body] at hsent
      have hsent := hextends.sent.trans hsent
      have hbuilt : ¬ c.Withholds step.call step.moment := by
        rintro (⟨e, he⟩ | hunbuildable)
        · exact nomatch happ.symm.trans he
        · exact (step.call.exists_url_iff hbase).mp ⟨u, hurl⟩ hunbuildable
      refine ⟨?_, ?_, fun hwhy => absurd hwhy hbuilt, ?_, ?_⟩
      · rw [hsent]
        exact Nat.le_refl 1
      · rw [hsent]
        exact ⟨fun h => (nomatch h), fun hwhy => absurd hwhy hbuilt⟩
      · intro r hr
        rw [hsent] at hr
        rw [List.mem_singleton.mp hr]
        exact carries_of_append hurl happ
      · rw [hextends.sending, hsent]
        exact congrArg (List.filter LogEvent.isSending) hlog

/-! ### Runs -/

/-- The outcomes of calls one after the other. -/
def run (c : Client) : List Step → List (Outcome Answer)
  | [] => []
  | step :: steps => c.call step.transport step.call step.moment :: c.run steps

/-- All that a run has logged, oldest first. -/
def runLog (c : Client) (steps : List Step) : List LogEvent := (c.run steps).flatMap Outcome.log

/-- All that a run has sent, oldest first. -/
def runSent (c : Client) (steps : List Step) : List Request := (c.run steps).flatMap Outcome.sent

theorem forall₂_accounts_run (hbase : c.baseUrl.IsHierarchical) (steps : List Step) :
    List.Forall₂ (fun step o => o.Accounts c step) steps (c.run steps) := by
  induction steps with
  | nil => exact .nil
  | cons step steps ih => exact .cons (accounts_call hbase step) ih

/-- Outcomes that account for their steps log what they send, in the same order. -/
theorem filter_log_of_accounts {steps : List Step} {outcomes : List (Outcome Answer)}
    (h : List.Forall₂ (fun step o => o.Accounts c step) steps outcomes) :
    (outcomes.flatMap Outcome.log).filter LogEvent.isSending =
      (outcomes.flatMap Outcome.sent).map c.eventOf := by
  induction h with
  | nil => rfl
  | cons haccounts _ ih =>
    rw [List.flatMap_cons, List.flatMap_cons, List.filter_append, List.map_append,
      haccounts.sending, ih]

/-- **Every request that a client sends is authenticated over exactly its own bytes, and nothing is
sent otherwise**: each outcome of a run accounts for its step, and the log of the run tells of the
requests of the run, one event each and in order. -/
theorem run_accounts {config : ClientConfig} {log : List LogEvent}
    (hclient : ofConfig config = (.ok c, log))
    (hscheme : c.baseUrl.scheme = "http".toList ∨ c.baseUrl.scheme = "https".toList)
    (steps : List Step) :
    List.Forall₂ (fun step o => o.Accounts c step) steps (c.run steps) ∧
      (c.runLog steps).filter LogEvent.isSending = (c.runSent steps).map c.eventOf := by
  have hrun := forall₂_accounts_run (isHierarchical_baseUrl hclient hscheme) steps
  exact ⟨hrun, filter_log_of_accounts hrun⟩

/-! ### A run of a client that signs -/

/-- The secret key one, for the local server. -/
def keyOneConfig : ClientConfig :=
  { ClientConfig.default with credential := some (.accessKey Authenticator.keyOneText) }

/-- The client that signs with the secret key one below the local server. -/
def keyOneClient : Client where
  baseUrl :=
    ⟨"http".toList, some ⟨[], [], .name "localhost".toList, some 3003⟩,
      .segments ["api".toList, "v1".toList, []], none, none⟩
  auth := .accessKey Authenticator.keyOne

/-- New metadata for a transaction, at a moment that brings random bytes. -/
def noteStep : Step where
  call := .updateTransactionMetadata ⟨"42", SortedMap.empty.insert "note" (.string "paid")⟩
  transport := fun _ => .unreachable
  moment := Authenticator.zeroMoment

/-- A draft, at a moment that brings none. -/
def draftStep : Step where
  call := .draftTransaction .default
  transport := fun _ => .unreachable
  moment := ⟨.error "no entropy", 0⟩

/-- The text of the new metadata. -/
def noteBody : Bytes := Utf8.encode "\x7b\"metadata\":\x7b\"note\":\"paid\"\x7d\x7d".toList

/-- The event that tells of the request with it. -/
def noteEvent : LogEvent where
  level := .debug
  message := "sending request"
  fields :=
    [("method", "PATCH"), ("url", "http://localhost:3003/api/v1/transactions/42"),
      ("mode", "access-key-signed"), ("body_len", "28")]

theorem body_noteStep : noteStep.call.body = noteBody := by decide +kernel

theorem exists_append_noteStep :
    ∃ headers, keyOneClient.auth.append plainHeaders noteBody noteStep.moment = .ok headers := by
  have hrandom : noteStep.moment.random = .ok ⟨List.replicate 32 0, rfl⟩ := rfl
  exact Authenticator.append_accessKey_of_sign? hrandom
    (Authenticator.isSome_sign?_authMessage (by decide +kernel))

theorem ofConfig_keyOne : ∃ log, ofConfig keyOneConfig = (.ok keyOneClient, log) := by
  have hcredential : Authenticator.ofCredential keyOneConfig.credential = .ok keyOneClient.auth :=
    Authenticator.ofCredential_keyOneText
  have hbase : (readBaseUrl keyOneConfig.baseUrl).toOption = some keyOneClient.baseUrl := by
    decide +kernel
  rw [ofConfig, hcredential]
  cases hread : readBaseUrl keyOneConfig.baseUrl with
  | error e =>
    rw [hread] at hbase
    cases hbase
  | ok u =>
    rw [hread] at hbase
    obtain rfl := Option.some.inj hbase
    exact ⟨_, rfl⟩

theorem not_withholds_noteStep : ¬ keyOneClient.Withholds noteStep.call noteStep.moment := by
  obtain ⟨headers, happ⟩ := exists_append_noteStep
  rintro (⟨e, he⟩ | ⟨q, fault, hcall, -⟩)
  · rw [body_noteStep, happ] at he
    cases he
  · cases hcall

theorem withholds_draftStep : keyOneClient.Withholds draftStep.call draftStep.moment :=
  .inl ⟨_, rfl⟩

theorem text_url_noteStep :
    (noteStep.call.url keyOneClient).toOption.map Url.text =
      some "http://localhost:3003/api/v1/transactions/42" := by decide +kernel

/-- What the client logs about the request that carries the new metadata. -/
theorem eventOf_of_carries {r : Request}
    (h : r.Carries keyOneClient noteStep.call noteStep.moment) :
    r.url.text = "http://localhost:3003/api/v1/transactions/42" ∧ r.body = some noteBody ∧
      keyOneClient.eventOf r = noteEvent := by
  have htext := text_url_noteStep
  rw [h.url] at htext
  have htext := Option.some.inj htext
  have hbody : r.body = some noteBody := by
    rw [h.body, ← body_noteStep]
    rfl
  have hlength : toString noteBody.length = "28" := by decide +kernel
  refine ⟨htext, hbody, ?_⟩
  rw [eventOf, sendingEvent, h.method, htext, hbody, Option.getD_some, hlength]
  rfl

/-- The secret key one sends the new metadata, under a digest of its text, and logs this. It asks
for no draft where it cannot authenticate the request. -/
theorem run_accounts_keyOne :
    (∃ log, ofConfig keyOneConfig = (.ok keyOneClient, log)) ∧
      List.Forall₂ (fun step o => o.Accounts keyOneClient step) [noteStep, draftStep]
        (keyOneClient.run [noteStep, draftStep]) ∧
      (∃ r, keyOneClient.runSent [noteStep, draftStep] = [r] ∧ r.method = .patch ∧
        r.url.text = "http://localhost:3003/api/v1/transactions/42" ∧ r.body = some noteBody ∧
        r.headers.values hashHeader = [hashBody noteBody]) ∧
      (keyOneClient.runLog [noteStep, draftStep]).filter LogEvent.isSending = [noteEvent] ∧
      ∃ e, (keyOneClient.call draftStep.transport draftStep.call draftStep.moment).result =
        .error e := by
  obtain ⟨log, hclient⟩ := ofConfig_keyOne
  have hscheme : keyOneClient.baseUrl.scheme = "http".toList := by decide
  obtain ⟨hrun, hlog⟩ := run_accounts hclient (.inl hscheme) [noteStep, draftStep]
  -- What the run sends is read off what accounts for its two steps.
  obtain ⟨hnote, hrest⟩ := List.forall₂_cons.mp hrun
  obtain ⟨hdraft, -⟩ := List.forall₂_cons.mp hrest
  obtain ⟨r, hr, hcarries⟩ := hnote.exists_sent not_withholds_noteStep
  obtain ⟨htext, hbody, hevent⟩ := eventOf_of_carries hcarries
  have hsent : keyOneClient.runSent [noteStep, draftStep] = [r] := by
    rw [runSent, run, List.flatMap_cons, hr, run, List.flatMap_cons,
      hdraft.sent_nil_iff.mpr withholds_draftStep]
    rfl
  have hhash := hcarries.hash rfl
  rw [hbody] at hhash
  refine ⟨⟨log, hclient⟩, hrun, ⟨r, hsent, hcarries.method, htext, hbody, hhash⟩, ?_,
    hdraft.error withholds_draftStep⟩
  rw [hlog, hsent, List.map_singleton, hevent]

end Client

end WalletApi
