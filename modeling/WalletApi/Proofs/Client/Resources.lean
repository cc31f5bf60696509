import WalletApi.Proofs.Client.Runs
import WalletApi.Proofs.Url.Segment

/-!
# Addresses of transactions

The identifier of a transaction is put behind the name of the endpoint as it is, and the whole is
resolved below the address of the server. So an identifier addresses its own transaction exactly
when it is a segment as it stands (`WalletApi.Client.transaction_addressed`), and then no other such
identifier has the same address. Reading a transaction and changing its metadata go to the same
address.

Nothing is checked or encoded, and identifiers with slashes, points or signs leave the collection:
two points lead to the other endpoints of the server (`WalletApi.Client.transaction_elsewhere`).
-/

namespace WalletApi.Client

variable {c : Client}

/-! ### Bases -/

/-- The base of a client of a web server is closed by a slash. -/
theorem exists_isBase {config : ClientConfig} {log : List LogEvent}
    (hclient : ofConfig config = (.ok c, log))
    (hscheme : c.baseUrl.scheme = "http".toList ∨ c.baseUrl.scheme = "https".toList) :
    ∃ l, c.baseUrl.IsBase l := by
  obtain ⟨u, hu, hbase⟩ := baseUrl_of_ofConfig hclient
  rw [hbase, Url.scheme_closePath] at hscheme
  rw [hbase]
  exact Url.exists_isBase_closePath (isHierarchical_of_ofText hu hscheme)

theorem isSpecial_of_web {scheme : List Char}
    (h : scheme = "http".toList ∨ scheme = "https".toList) : Url.isSpecial scheme = true := by
  rcases h with rfl | rfl <;> decide

/-- All that a call sends goes to its address. -/
theorem url_of_mem_sent (hbase : c.baseUrl.IsHierarchical) (call : FacadeCall)
    {transport : Transport} {moment : Moment} {u : Url} (hurl : call.url c = .ok u) {r : Request}
    (hr : r ∈ (c.call transport call moment).sent) : r.url = u := by
  have hcarries := (accounts_call hbase ⟨call, transport, moment⟩).carries r hr
  exact Except.ok.inj (hcarries.url.symm.trans hurl)

/-! ### Identifiers -/

/-- The address is that of the transaction with an identifier. -/
def IsTransaction (c : Client) (id : String) (u : Url) : Prop :=
  u.IsEntry c.baseUrl transactionsEndpoint.toList id.toList

/-- **The address of a request about a transaction.** It is on the server of the client, whatever
the identifier, and both calls about a transaction go to it. -/
structure AddressesTransaction (c : Client) (id : String) (u : Url) : Prop where
  url : c.url (transactionEndpoint id) = .ok u
  scheme : u.scheme = c.baseUrl.scheme
  authority : u.authority = c.baseUrl.authority
  read : ∀ transport moment, ∀ r ∈ (c.transaction transport id moment).sent, r.url = u
  updated : ∀ transport request moment, request.id = id →
    ∀ r ∈ (c.updateTransactionMetadata transport request moment).sent, r.url = u

theorem toList_transactionEndpoint (id : String) :
    (transactionEndpoint id).toList = 't' :: "ransactions".toList ++ '/' :: id.toList := by
  rw [transactionEndpoint, transactionsEndpoint, String.toList_append, String.toList_append]
  rfl

theorem sent_call_transaction (transport : Transport) (id : String) (moment : Moment) :
    (c.call transport (.transaction id) moment).sent =
      (c.transaction transport id moment).sent := by
  rw [call, Outcome.map]

theorem sent_call_update (transport : Transport) (r : UpdateTransactionMetadataRequest)
    (moment : Moment) : (c.call transport (.updateTransactionMetadata r) moment).sent =
      (c.updateTransactionMetadata transport r moment).sent := by
  rw [call, Outcome.map]

theorem url_transactionEndpoint_iff {id : String} {u : Url} :
    c.url (transactionEndpoint id) = .ok u ↔ Url.resolve (some c.baseUrl)
      (String.ofList ('t' :: "ransactions".toList ++ '/' :: id.toList)) = .ok u := by
  rw [url, toList_transactionEndpoint]
  exact mapError_eq_ok

theorem isAlpha_of_mem_transactions : ∀ d ∈ 't' :: "ransactions".toList, d.isAlpha = true := by
  simp

section Base

variable {l : List (List Char)} (hbase : c.baseUrl.IsBase l)
  (hspecial : Url.isSpecial c.baseUrl.scheme = true)

include hbase hspecial

theorem isTransaction_iff {id : String} {u : Url} (h : c.url (transactionEndpoint id) = .ok u) :
    c.IsTransaction id u ↔ Url.IsSegment id.toList := by
  have hresolve := url_transactionEndpoint_iff.mp h
  constructor
  · intro hentry
    exact hbase.isSegment_of_isEntry hspecial isAlpha_of_mem_transactions String.toList_ofList
      hresolve hentry
  · intro hsegment
    exact hbase.isEntry_of_isSegment hspecial isAlpha_of_mem_transactions String.toList_ofList
      hsegment hresolve

theorem exists_addressesTransaction (id : String) : ∃ u, c.AddressesTransaction id u := by
  have htext : (String.ofList ('t' :: "ransactions".toList ++ '/' :: id.toList)).toList =
    't' :: "ransactions".toList ++ '/' :: id.toList := String.toList_ofList
  obtain ⟨-, path, last, query, fragment, hresolve, -⟩ :=
    hbase.exists_resolve_below hspecial isAlpha_of_mem_transactions htext
  have hurl := url_transactionEndpoint_iff.mpr hresolve
  refine ⟨_, hurl, rfl, rfl, ?_, ?_⟩
  · intro transport moment r hr
    rw [← sent_call_transaction] at hr
    exact url_of_mem_sent hbase.isHierarchical (.transaction id) hurl hr
  · rintro transport request moment rfl r hr
    rw [← sent_call_update] at hr
    exact url_of_mem_sent hbase.isHierarchical (.updateTransactionMetadata request) hurl hr

end Base

/-- **An identifier addresses its own transaction exactly when it is a segment as it stands**, and
no two such identifiers share an address. -/
theorem transaction_addressed {config : ClientConfig} {log : List LogEvent}
    (hclient : ofConfig config = (.ok c, log))
    (hscheme : c.baseUrl.scheme = "http".toList ∨ c.baseUrl.scheme = "https".toList)
    (id : String) :
    ∃ u, c.AddressesTransaction id u ∧ (c.IsTransaction id u ↔ Url.IsSegment id.toList) ∧
      ∀ other u', Url.IsSegment id.toList → Url.IsSegment other.toList →
        c.url (transactionEndpoint other) = .ok u' →
        Url.pathText u.path = Url.pathText u'.path → id = other := by
  obtain ⟨l, hbase⟩ := exists_isBase hclient hscheme
  have hspecial := isSpecial_of_web hscheme
  obtain ⟨u, hu⟩ := exists_addressesTransaction hbase hspecial id
  have hiff := isTransaction_iff hbase hspecial hu.url
  refine ⟨u, hu, hiff, fun other u' hid hother hu' hpath => ?_⟩
  have hother := (isTransaction_iff hbase hspecial hu').mpr hother
  exact String.toList_inj.mp ((hiff.mpr hid).inj hother hpath)

/-! ### The client without configuration -/

theorem exists_client_default :
    ∃ c log, ofConfig .default = (.ok c, log) ∧ c.baseUrl.scheme = "http".toList ∧
      (c.url (transactionEndpoint "../configs/shared")).toOption =
        (c.url "configs/shared").toOption := by
  have hdefault : (ofConfig .default).1.toOption.map (fun c => (c.baseUrl.scheme,
      decide ((c.url (transactionEndpoint "../configs/shared")).toOption =
        (c.url "configs/shared").toOption))) = some ("http".toList, true) := by decide +kernel
  cases hclient : ofConfig .default with
  | mk result log =>
    rw [hclient] at hdefault
    cases result with
    | error e => exact nomatch hdefault
    | ok c =>
      have hpair := Prod.ext_iff.mp (Option.some.inj hdefault)
      exact ⟨c, log, rfl, hpair.1, of_decide_eq_true hpair.2⟩

/-- Without configuration, a transaction with a plain identifier is addressed at the local server.
-/
theorem transaction_addressed_default :
    ∃ c log, ofConfig .default = (.ok c, log) ∧ c.baseUrl.scheme = "http".toList ∧
      ∃ u, c.AddressesTransaction "tx-1" u ∧ c.IsTransaction "tx-1" u := by
  obtain ⟨c, log, hclient, hscheme, -⟩ := exists_client_default
  obtain ⟨u, hu, hiff, -⟩ := transaction_addressed hclient (.inl hscheme) "tx-1"
  refine ⟨c, log, hclient, hscheme, u, hu, hiff.mpr ?_⟩
  exact {
    slash := by simp [Url.isSlash]
    tail := by simp [Url.beginsTail]
    kept := by simp [Url.dropped]
    last := by simp
    points := by decide
    decode := by decide }

/-- **An identifier that steps back addresses another endpoint**: the settings that are shared. -/
theorem transaction_elsewhere :
    ∃ c log, ofConfig .default = (.ok c, log) ∧ c.baseUrl.scheme = "http".toList ∧
      ∃ u, c.url "configs/shared" = .ok u ∧ c.AddressesTransaction "../configs/shared" u ∧
        ¬ c.IsTransaction "../configs/shared" u := by
  obtain ⟨c, log, hclient, hscheme, hsame⟩ := exists_client_default
  obtain ⟨l, hbase⟩ := exists_isBase hclient (.inl hscheme)
  have hspecial := isSpecial_of_web (.inl hscheme)
  obtain ⟨u, hu⟩ := exists_addressesTransaction hbase hspecial "../configs/shared"
  refine ⟨c, log, hclient, hscheme, u, ?_, hu, fun h => ?_⟩
  · rw [hu.url] at hsame
    cases hshared : c.url "configs/shared" with
    | error e => rw [hshared] at hsame; exact nomatch hsame
    | ok u' => rw [hshared] at hsame; exact congrArg Except.ok (Option.some.inj hsame).symm
  · have hsegment := (isTransaction_iff hbase hspecial hu.url).mp h
    exact absurd (hsegment.slash '/' (by decide)) (by decide)

end WalletApi.Client
