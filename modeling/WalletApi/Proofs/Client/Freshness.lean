import WalletApi.Proofs.Auth.SignedText
import WalletApi.Proofs.Client.Requests

/-!
# No nonce and no signed text is used twice

Any number of clients send requests one after the other, in any order and in any mode
(`WalletApi.Dispatch`). A client that signs draws thirty-two bytes from the random source for each
request, whether the request is then sent or not; the other modes draw nothing.

What is sent under a signature bears a payload that was built from the bytes drawn for it, so the
nonces of a run are among the texts of what was drawn, in the same order
(`WalletApi.Dispatch.exists_payloads`). If the random source never gives the same bytes twice, no
two requests share a nonce. Nor do two signatures share a text, since a text determines its nonce.
Both are in `WalletApi.Dispatch.nonces_and_messages_nodup`.
-/

namespace WalletApi

/-- **A request that one of several clients is asked to send**, with what becomes of it and what the
moment brings. -/
structure Dispatch where
  client : Client
  method : Method
  url : Url
  body : Bytes
  transport : Transport
  moment : Moment

/-- The headers of a request are those of a payload, each with one value, and the signature in them
was made by a key for the text of this payload. -/
structure Request.Bears (r : Request) (p : AuthPayload) : Prop where
  values : ∀ f ∈ p.headers, r.headers.values f.1 = [f.2]
  signed : ∃ key : SecretKey, key.signText p.message = .ok p.signature

namespace Dispatch

/-- What the client makes of it. -/
def outcome (d : Dispatch) : Outcome Response :=
  d.client.send d.transport d.method d.url d.body d.moment

/-- What is sent under a signature. -/
def signed (d : Dispatch) : List Request := if d.client.auth.mode.signs then d.outcome.sent else []

/-- What is drawn from the random source. -/
def drawn (d : Dispatch) : List (Bytes.Sized 32) :=
  if d.client.auth.mode.signs then d.moment.random.toOption.toList else []

variable {d : Dispatch}

/-- The headers that a signing client writes are those of a payload that it has built. -/
theorem exists_payload_of_issues {a : Authenticator} {body : Bytes} {moment : Moment}
    {fields : List (String × String)} (hsigns : a.mode.signs = true)
    (h : a.Issues body moment fields) :
    ∃ p, AuthPayload.BuiltFor body moment a.mode p ∧ p.headers = fields := by
  cases h with
  | noAuth => exact nomatch hsigns
  | publicKeyOnly => exact nomatch hsigns
  | accessKey hp => exact ⟨_, .accessKey hp, rfl⟩
  | extendedKey hp =>
    rename_i master p
    have hbuilt : AuthPayload.forExtendedKey (.secret master) body moment = .ok p := hp
    exact ⟨p, .extendedKey hbuilt, rfl⟩

/-- **One request**: what is sent under a signature bears a payload that was built from the bytes
that were drawn for it. -/
theorem signed_step (d : Dispatch) :
    d.signed = [] ∨ ∃ r p bytes, d.signed = [r] ∧ r.Bears p ∧
      AuthPayload.BuiltFor d.body d.moment d.client.auth.mode p ∧ d.drawn = [bytes] ∧
      p.nonce = AuthPayload.nonceText bytes := by
  by_cases hsigns : d.client.auth.mode.signs = true
  · rw [signed, if_pos hsigns, drawn, if_pos hsigns, outcome]
    cases happ : d.client.auth.append Client.plainHeaders d.body d.moment with
    | error e =>
      left
      rw [Client.send_of_append_error d.method d.url d.transport happ]
      rfl
    | ok headers =>
      right
      obtain ⟨fields, hissues, -, hvalues, -⟩ := Authenticator.isWritten_of_append happ
      obtain ⟨p, hp, rfl⟩ := exists_payload_of_issues hsigns hissues
      obtain ⟨identity, bytes, σ, -, -, hrandom, hσ, rfl⟩ := hp.exists_fields
      refine ⟨_, _, bytes, (Client.send_of_append_ok d.method d.url d.transport happ).1,
        ⟨hvalues, hσ⟩, hp, ?_, rfl⟩
      rw [hrandom]
      rfl
  · left
    rw [signed, if_neg hsigns]

/-- **A run of requests**: each one that is sent under a signature bears a payload of its own, and
the nonces of these payloads are among the texts of the bytes that were drawn. -/
theorem exists_payloads (run : List Dispatch) :
    ∃ payloads : List AuthPayload,
      List.Forall₂ Request.Bears (run.flatMap signed) payloads ∧
      (∀ p ∈ payloads, ∃ body moment mode, AuthPayload.BuiltFor body moment mode p) ∧
      (payloads.map AuthPayload.nonce).Sublist
        ((run.flatMap drawn).map AuthPayload.nonceText) := by
  induction run with
  | nil => exact ⟨[], .nil, fun p hp => absurd hp List.not_mem_nil, List.Sublist.refl _⟩
  | cons d run ih =>
    obtain ⟨payloads, hbears, hbuilt, hsub⟩ := ih
    rw [List.flatMap_cons, List.flatMap_cons, List.map_append]
    rcases d.signed_step with hnone | ⟨r, p, bytes, hsigned, hr, hp, hdrawn, hnonce⟩
    · rw [hnone, List.nil_append]
      exact ⟨payloads, hbears, hbuilt, hsub.trans (List.sublist_append_right _ _)⟩
    · rw [hsigned, hdrawn, List.map_singleton, List.singleton_append, List.singleton_append]
      refine ⟨p :: payloads, .cons hr hbears, fun q hq => ?_, ?_⟩
      · rcases List.mem_cons.mp hq with rfl | hq
        · exact ⟨_, _, _, hp⟩
        · exact hbuilt q hq
      · rw [List.map_cons, hnonce]
        exact hsub.cons_cons _

/-- Payloads with different nonces have different signed texts. -/
theorem nodup_messages {payloads : List AuthPayload}
    (hbuilt : ∀ p ∈ payloads, ∃ body moment mode, AuthPayload.BuiltFor body moment mode p)
    (h : (payloads.map AuthPayload.nonce).Nodup) : (payloads.map AuthPayload.message).Nodup := by
  rw [List.Nodup, List.pairwise_map] at h ⊢
  refine h.imp_of_mem fun {p q} hp hq hne hmessage => hne ?_
  obtain ⟨_, _, _, hp⟩ := hbuilt p hp
  obtain ⟨_, _, _, hq⟩ := hbuilt q hq
  exact (hp.eq_of_message_eq hq hmessage).2.2.2.1

/-- **A signed text determines every field that is signed, and nothing is used twice.** Payloads
whose signed texts are equal agree in the mode, the name of the sender, the digest, the nonce, the
time and the random bytes. So in a run of requests by any number of clients in which the random
source never gives the same bytes twice, the requests that are sent under a signature bear payloads
with different nonces and different signed texts. -/
theorem nonces_and_messages_nodup :
    (∀ (body body' : Bytes) (moment moment' : Moment) (mode mode' : AuthMode) (p q : AuthPayload),
      AuthPayload.BuiltFor body moment mode p → AuthPayload.BuiltFor body' moment' mode' q →
      p.message = q.message →
      mode = mode' ∧ p.identity = q.identity ∧ p.hash = q.hash ∧ p.nonce = q.nonce ∧
        p.time = q.time ∧ moment.random = moment'.random) ∧
    ∀ run : List Dispatch, (run.flatMap drawn).Nodup →
      ∃ payloads : List AuthPayload,
        List.Forall₂ Request.Bears (run.flatMap signed) payloads ∧
        (payloads.map AuthPayload.nonce).Nodup ∧ (payloads.map AuthPayload.message).Nodup := by
  refine ⟨fun _ _ _ _ _ _ _ _ hp hq => hp.eq_of_message_eq hq, fun run hdrawn => ?_⟩
  obtain ⟨payloads, hbears, hbuilt, hsub⟩ := exists_payloads run
  have hnonces : (payloads.map AuthPayload.nonce).Nodup :=
    hsub.nodup (hdrawn.map fun _ _ => AuthPayload.nonceText_inj)
  exact ⟨payloads, hbears, hnonces, nodup_messages hbuilt hnonces⟩

/-- The address of the local server. -/
def localUrl : Url :=
  ⟨"http".toList, some ⟨[], [], .name "localhost".toList, none⟩, .segments [[]], none, none⟩

/-- A request of the least secret key to the local server, at time zero, with thirty-two equal
random bytes. -/
def ofKeyOne (b : UInt8) : Dispatch where
  client := ⟨localUrl, .accessKey Authenticator.keyOne⟩
  method := .get
  url := localUrl
  body := []
  transport := fun _ => .unreachable
  moment := ⟨.ok ⟨List.replicate 32 b, List.length_replicate⟩, 0⟩

theorem signed_ofKeyOne_ne_nil : (ofKeyOne 0).signed ≠ [] := by
  obtain ⟨headers, happ⟩ : ∃ headers, (ofKeyOne 0).client.auth.append Client.plainHeaders []
      (ofKeyOne 0).moment = .ok headers :=
    Authenticator.append_accessKey_of_sign? rfl Authenticator.isSome_sign?_keyOne
  have hsent : (ofKeyOne 0).outcome.sent = [⟨.get, localUrl, headers, none⟩] :=
    (Client.send_of_append_ok (c := (ofKeyOne 0).client) .get localUrl (fun _ => .unreachable)
      happ).1
  have hsigns : (ofKeyOne 0).client.auth.mode.signs = true := rfl
  rw [signed, if_pos hsigns, hsent]
  exact List.cons_ne_nil _ _

/-- Two requests of one key, of which at least the first is sent, draw different bytes and share
neither a nonce nor a signed text. -/
theorem nonces_and_messages_nodup_keyOne :
    (ofKeyOne 0).signed ≠ [] ∧ ([ofKeyOne 0, ofKeyOne 1].flatMap drawn).Nodup ∧
      ∃ payloads : List AuthPayload,
        List.Forall₂ Request.Bears ([ofKeyOne 0, ofKeyOne 1].flatMap signed) payloads ∧
        (payloads.map AuthPayload.nonce).Nodup ∧ (payloads.map AuthPayload.message).Nodup := by
  have hdrawn : ([ofKeyOne 0, ofKeyOne 1].flatMap drawn).Nodup := by decide
  exact ⟨signed_ofKeyOne_ne_nil, hdrawn, nonces_and_messages_nodup.2 _ hdrawn⟩

end Dispatch

end WalletApi
