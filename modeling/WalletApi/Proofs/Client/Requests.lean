import WalletApi.Client.Basic
import WalletApi.Proofs.Auth.HeaderValues
import WalletApi.Proofs.Url.Relative

/-!
# What a client sends

Six calls share one path: an address is found, the bytes of the body are authenticated, the request
is handed over and what is made of the response is the only part that differs. So a call sends and
logs what its exchange does (`WalletApi.Client.call_extends`), and reading a response adds nothing
to either.

The bytes that are hashed, the bytes that are sent and the length that is logged are taken from one
body, but a body of no bytes is left out of the request. The text of an argument is the text of an
object, so this never loses one (`WalletApi.FacadeCall.sent_body`).
-/

namespace WalletApi

/-! ### The calls of a client -/

/-- **A call of a client**, with its argument. -/
inductive FacadeCall
  | transaction (id : String)
  | transactions (q : TransactionsQuery)
  | draftTransaction (r : DraftTransactionRequest)
  | recordTransaction (r : RecordTransactionRequest)
  | updateTransactionMetadata (r : UpdateTransactionMetadataRequest)
  | sharedConfig

/-- What a call answers. -/
inductive Answer
  | transaction (t : Transaction)
  | transactions (l : List Transaction)
  | draft (d : DraftTransaction)
  | config (c : SharedConfig)

namespace FacadeCall

/-- The method of the request of a call. -/
def method : FacadeCall → Method
  | .draftTransaction _ => .post
  | .recordTransaction _ => .post
  | .updateTransactionMetadata _ => .patch
  | _ => .get

/-- The value that a call sends as the body of its request. -/
def argument? : FacadeCall → Option Json.Value
  | .draftTransaction r => some r.toValue
  | .recordTransaction r => some r.toValue
  | .updateTransactionMetadata r => some r.toValue
  | _ => none

/-- The bytes that the headers of a call cover: the text of its argument, or none. -/
def body (call : FacadeCall) : Bytes := (call.argument?.map Client.bodyOf).getD []

/-- The address of the request of a call. -/
def url (c : Client) : FacadeCall → Except ClientError Url
  | .transaction id => c.url (Client.transactionEndpoint id)
  | .transactions q => c.listingUrl q
  | .draftTransaction _ => c.url (Client.transactionsEndpoint ++ "/drafts")
  | .recordTransaction _ => c.url Client.transactionsEndpoint
  | .updateTransactionMetadata r => c.url (Client.transactionEndpoint r.id)
  | .sharedConfig => c.url "configs/shared"

end FacadeCall

/-- **The outcome of a call.** -/
def Client.call (c : Client) (transport : Transport) (call : FacadeCall) (moment : Moment) :
    Outcome Answer :=
  match call with
  | .transaction id => (c.transaction transport id moment).map .transaction
  | .transactions q => (c.transactions transport q moment).map .transactions
  | .draftTransaction r => (c.draftTransaction transport r moment).map .draft
  | .recordTransaction r => (c.recordTransaction transport r moment).map .transaction
  | .updateTransactionMetadata r =>
    (c.updateTransactionMetadata transport r moment).map .transaction
  | .sharedConfig => (c.sharedConfig transport moment).map .config

/-! ### A call sends what its exchange sends -/

/-- The event tells that a request is handed over. -/
def LogEvent.isSending (e : LogEvent) : Bool := e.message == "sending request"

/-- An outcome that goes on from another one without sending: the requests and the events that tell
of them are the same, and so is the error, if there is one. -/
structure Outcome.Extends {α β : Type} (o : Outcome β) (start : Outcome α) : Prop where
  sent : o.sent = start.sent
  sending : o.log.filter LogEvent.isSending = start.log.filter LogEvent.isSending
  error : ∀ e, start.result = .error e → o.result = .error e

namespace Outcome

variable {α β γ : Type}

theorem extends_failed (e : ClientError) :
    (failed e : Outcome β).Extends (failed e : Outcome α) :=
  ⟨rfl, rfl, fun _ h => congrArg Except.error (Except.error.inj h)⟩

theorem Extends.map {o : Outcome β} {start : Outcome α} (h : o.Extends start) (f : β → γ) :
    (o.map f).Extends start where
  sent := h.sent
  sending := h.sending
  error e he := by rw [Outcome.map, h.error e he]; rfl

/-- Reading a response sends nothing and tells of no request. -/
theorem extends_bind_decode (start : Outcome Response) (r : Json.Reader α) :
    (start.bind (Client.decode r)).Extends start := by
  rw [bind]
  cases hresult : start.result with
  | error e => exact ⟨rfl, rfl, fun _ h => hresult ▸ h ▸ rfl⟩
  | ok response =>
    -- An error status is logged under another message.
    have hdecode : (Client.decode r response).sent = [] ∧
        (Client.decode r response).log.filter LogEvent.isSending = [] := by
      rw [Client.decode]
      split
      · exact ⟨rfl, rfl⟩
      · exact ⟨rfl, rfl⟩
    refine ⟨?_, ?_, fun e h => ?_⟩
    · simp only [hdecode.1, List.append_nil]
    · simp only [List.filter_append, hdecode.2, List.append_nil]
    · rw [hresult] at h
      exact nomatch h

end Outcome

namespace Client

/-- The exchange with an address, if there is one, up to the response. -/
def sendTo (c : Client) (transport : Transport) (method : Method) (url : Except ClientError Url)
    (body : Bytes) (moment : Moment) : Outcome Response :=
  match url with
  | .error e => .failed e
  | .ok url => c.send transport method url body moment

theorem exchangeAt_extends {α : Type} (c : Client) (transport : Transport) (r : Json.Reader α)
    (method : Method) (endpoint : String) (body : Bytes) (moment : Moment) :
    (c.exchangeAt transport r method endpoint body moment).Extends
      (c.sendTo transport method (c.url endpoint) body moment) := by
  rw [exchangeAt]
  cases c.url endpoint with
  | error e => exact Outcome.extends_failed e
  | ok url => exact Outcome.extends_bind_decode _ r

theorem transactions_extends (c : Client) (transport : Transport) (q : TransactionsQuery)
    (moment : Moment) :
    (c.transactions transport q moment).Extends
      (c.sendTo transport .get (c.listingUrl q) [] moment) := by
  rw [transactions]
  cases c.listingUrl q with
  | error e => exact Outcome.extends_failed e
  | ok url => exact (Outcome.extends_bind_decode _ _).map _

/-- **Every call is an exchange and what is made of its response.** -/
theorem call_extends (c : Client) (transport : Transport) (call : FacadeCall) (moment : Moment) :
    (c.call transport call moment).Extends
      (c.sendTo transport call.method (call.url c) call.body moment) := by
  cases call with
  | transactions q => exact (c.transactions_extends transport q moment).map _
  | _ =>
    simp only [call, transaction, draftTransaction, recordTransaction, updateTransactionMetadata,
      sharedConfig, FacadeCall.method, FacadeCall.url, FacadeCall.body, FacadeCall.argument?,
      Option.map_some, Option.map_none, Option.getD_some, Option.getD_none]
    exact (c.exchangeAt_extends _ _ _ _ _ _).map _

/-! ### One exchange -/

variable {c : Client} {body : Bytes} {moment : Moment}

theorem send_of_append_error (method : Method) (url : Url) (transport : Transport) {e : AuthError}
    (h : c.auth.append plainHeaders body moment = .error e) :
    c.send transport method url body moment = .failed (.auth e) := by
  rw [send, request, h]

/-- A request that can be authenticated is handed over, once, and this is logged. -/
theorem send_of_append_ok (method : Method) (url : Url) (transport : Transport)
    {headers : HeaderMap} (h : c.auth.append plainHeaders body moment = .ok headers) :
    (c.send transport method url body moment).sent =
        [⟨method, url, headers, if body = [] then none else some body⟩] ∧
      (c.send transport method url body moment).log = [c.sendingEvent method url body] := by
  rw [send, request, h]
  exact ⟨rfl, rfl⟩

/-- The headers of a request are the content type and what the call has issued. -/
theorem entries_of_append {headers : HeaderMap}
    (h : c.auth.append plainHeaders body moment = .ok headers) :
    ∃ fields, c.auth.Issues body moment fields ∧
      headers.entries = ("content-type", "application/json") :: fields := by
  obtain ⟨fields, hissues, rfl⟩ := Authenticator.append_eq_ok.mp h
  have hnames := hissues.names
  have hfresh : ∀ mode : AuthMode, ∀ name ∈ mode.headerNames, name ≠ "content-type" := by
    intro mode
    cases mode <;> decide
  -- None of the headers is the content type, so they all come after it.
  refine ⟨fields, hissues, ?_⟩
  rw [HeaderMap.entries_insertAll (hnames ▸ Authenticator.nodup_headerNames _)]
  · rfl
  · intro name hname hmem
    exact hfresh _ name (hnames ▸ hname) (List.mem_singleton.mp hmem)

/-- In a signing mode, a request has one value for the digest of its body. -/
theorem values_hash_of_append {headers : HeaderMap} (hsigns : c.auth.mode.signs = true)
    (h : c.auth.append plainHeaders body moment = .ok headers) :
    headers.values hashHeader = [hashBody body] := by
  obtain ⟨fields, hissues, -, hvalues, -⟩ := Authenticator.isWritten_of_append h
  exact hvalues _ (hissues.hash_mem hsigns)

/-! ### Bodies -/

/-- The text of an object is not empty, so a body is never left out for lack of bytes. -/
theorem bodyOf_object_ne_nil (members : List (String × Json.Value)) :
    bodyOf (.object members) ≠ [] := by
  have hbrace : ∀ cs : List Char, Utf8.encode ('\x7b' :: cs) ≠ [] := fun cs => by
    rw [Utf8.encode_cons]
    exact List.append_ne_nil_of_left_ne_nil (by decide) _
  cases members with
  | nil =>
    rw [bodyOf, Json.Value.chars]
    exact hbrace _
  | cons m rest =>
    obtain ⟨k, v⟩ := m
    rw [bodyOf, Json.Value.chars]
    exact hbrace _

end Client

namespace FacadeCall

theorem bodyOf_ne_nil {call : FacadeCall} {v : Json.Value} (h : call.argument? = some v) :
    Client.bodyOf v ≠ [] := by
  cases call with
  | draftTransaction r =>
    obtain rfl := Option.some.inj h
    exact Client.bodyOf_object_ne_nil _
  | recordTransaction r =>
    obtain rfl := Option.some.inj h
    exact Client.bodyOf_object_ne_nil _
  | updateTransactionMetadata r =>
    obtain rfl := Option.some.inj h
    exact Client.bodyOf_object_ne_nil _
  | transaction id => exact nomatch h
  | transactions q => exact nomatch h
  | sharedConfig => exact nomatch h

/-- The body that is sent is the text of the argument, and there is none without an argument. -/
theorem sent_body (call : FacadeCall) :
    (if call.body = [] then none else some call.body) = call.argument?.map Client.bodyOf := by
  cases h : call.argument? with
  | none => rw [body, h]; rfl
  | some v =>
    have hbody : call.body = Client.bodyOf v := by rw [body, h]; rfl
    rw [hbody, if_neg (bodyOf_ne_nil h), Option.map_some]

theorem method_eq_get_iff (call : FacadeCall) : call.method = .get ↔ call.argument? = none := by
  cases call <;> simp [method, argument?]

end FacadeCall

end WalletApi
