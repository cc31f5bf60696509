import WalletApi.Proofs.Client.Listing
import WalletApi.Proofs.Url.TrailingSlash

/-!
# Addresses of endpoints

Whatever the arguments of a call are, its request goes to the server that was configured, for the
scheme and the authority of the address are those of the base
(`WalletApi.Client.isOnServer_baseUrl`). Four calls have an endpoint that does not depend on their
arguments, and it is found right below the base, of which nothing but the path is kept
(`WalletApi.Client.exists_pieces_of_endpoint?`).

The base is closed by a slash when the client is made, so it may be configured with or without one:
the client is the same (`WalletApi.Client.ofConfig_of_addsSlash`). All of this is
`WalletApi.Client.requests_below_base`.
-/

namespace WalletApi

/-! ### Addresses on a server -/

/-- **The address is on a server**: by its scheme, its user, its host and its port. -/
structure Url.IsOnServer (u server : Url) : Prop where
  scheme : u.scheme = server.scheme
  authority : u.authority = server.authority

/-- **The address is that of an endpoint below a server**, with a query of its own. -/
structure Url.IsEndpoint (u server : Url) (endpoint : String) (query : Option (List Char)) :
    Prop where
  path : Url.pathText u.path = Url.withSlash (Url.pathText server.path) ++ endpoint.toList
  query : u.query = query
  fragment : u.fragment = none

namespace FacadeCall

/-- The endpoint of a call that has the same one for all arguments. -/
def endpoint? : FacadeCall → Option String
  | .transactions _ => some Client.transactionsEndpoint
  | .draftTransaction _ => some (Client.transactionsEndpoint ++ "/drafts")
  | .recordTransaction _ => some Client.transactionsEndpoint
  | .sharedConfig => some "configs/shared"
  | .transaction _ => none
  | .updateTransactionMetadata _ => none

/-- The query of a call: the form of a listing's parameters, if it has any. -/
def query? : FacadeCall → Option (List Char)
  | .transactions q =>
    match q.build with
    | .ok values =>
      if TransactionsQuery.pairs values = [] then none
      else some (Form.encode (TransactionsQuery.pairs values))
    | .error _ => none
  | _ => none

end FacadeCall

namespace Client

variable {c : Client} {l : List (List Char)} (hbase : c.baseUrl.IsBase l)
  (hspecial : Url.isSpecial c.baseUrl.scheme = true)

include hbase hspecial

/-- An endpoint of two names goes below the base. -/
theorem url_of_names (endpoint : String) (first : Char) (name segment : List Char)
    (hendpoint : endpoint.toList = first :: name ++ '/' :: segment)
    (hletters : (first :: name).all Char.isAlpha = true)
    (hletters' : segment.all Char.isAlpha = true) :
    c.url endpoint = .ok { c.baseUrl with
      path := .segments (l ++ [first :: name, segment])
      query := none
      fragment := none } := by
  have hname := List.all_eq_true.mp hletters
  have hsegment := List.all_eq_true.mp hletters'
  rw [url_of_isAlpha hendpoint (hname first List.mem_cons_self),
    hbase.resolve_of_isSegment hspecial hname hendpoint (Url.isSegment_of_letters hsegment),
    Url.encode_letters hsegment]
  rfl

/-- **Each call has the address of its endpoint**, with its own query and without those of the base.
-/
theorem exists_pieces_of_endpoint? {call : FacadeCall} {endpoint : String}
    (hendpoint : call.endpoint? = some endpoint) {u : Url} (hu : call.url c = .ok u) :
    ∃ pieces, Url.pathText (.segments pieces) = '/' :: endpoint.toList ∧
      u = { c.baseUrl with
        path := .segments (l ++ pieces)
        query := call.query?
        fragment := none } := by
  cases call with
  | transactions q =>
    obtain rfl := Option.some.inj hendpoint
    obtain ⟨values, hbuild⟩ := (exists_listingUrl_iff hbase.isHierarchical q).mp ⟨u, hu⟩
    rw [FacadeCall.url, listingUrl_eq (url_transactions hbase hspecial) hbuild] at hu
    obtain rfl := Except.ok.inj hu
    refine ⟨[transactionsEndpoint.toList], rfl, ?_⟩
    rw [FacadeCall.query?, hbuild]
    simp only
    split
    · rfl
    · rfl
  | recordTransaction r =>
    obtain rfl := Option.some.inj hendpoint
    obtain rfl := Except.ok.inj ((url_transactions hbase hspecial).symm.trans hu)
    exact ⟨[transactionsEndpoint.toList], rfl, rfl⟩
  | draftTransaction r =>
    obtain rfl := Option.some.inj hendpoint
    have hnames := url_of_names hbase hspecial (transactionsEndpoint ++ "/drafts") 't'
      "ransactions".toList "drafts".toList (by decide) (by decide) (by decide)
    obtain rfl := Except.ok.inj (hnames.symm.trans hu)
    exact ⟨_, by decide, rfl⟩
  | sharedConfig =>
    obtain rfl := Option.some.inj hendpoint
    have hnames := url_of_names hbase hspecial "configs/shared" 'c' "onfigs".toList "shared".toList
      (by decide) (by decide) (by decide)
    obtain rfl := Except.ok.inj (hnames.symm.trans hu)
    exact ⟨_, by decide, rfl⟩
  | transaction id => cases hendpoint
  | updateTransactionMetadata r => cases hendpoint

/-- **The address of a call is on the server of the base**, whatever its arguments are. -/
theorem isOnServer_baseUrl {call : FacadeCall} {u : Url} (hu : call.url c = .ok u) :
    u.IsOnServer c.baseUrl := by
  have htransaction : ∀ {id : String}, c.url (transactionEndpoint id) = .ok u →
      u.IsOnServer c.baseUrl := by
    intro id h
    obtain ⟨u', hu'⟩ := exists_addressesTransaction hbase hspecial id
    obtain rfl := Except.ok.inj (hu'.url.symm.trans h)
    exact ⟨hu'.scheme, hu'.authority⟩
  have hendpoint : ∀ {endpoint}, call.endpoint? = some endpoint → u.IsOnServer c.baseUrl := by
    intro endpoint h
    obtain ⟨pieces, -, rfl⟩ := exists_pieces_of_endpoint? hbase hspecial h hu
    exact ⟨rfl, rfl⟩
  cases call with
  | transaction id => exact htransaction hu
  | updateTransactionMetadata r => exact htransaction hu
  | transactions q => exact hendpoint rfl
  | recordTransaction r => exact hendpoint rfl
  | draftTransaction r => exact hendpoint rfl
  | sharedConfig => exact hendpoint rfl

end Client

/-! ### Bases with and without a slash -/

namespace Client

variable {c : Client} {config : ClientConfig} {log : List LogEvent}

/-- A base that is written with or without a slash at its end is the same. -/
theorem readBaseUrl_of_addsSlash {s s' : String} (h : Url.AddsSlash s s') {server : Url}
    (hserver : Url.ofText s = .ok server ∨ Url.ofText s' = .ok server)
    (hscheme : server.scheme = "http".toList ∨ server.scheme = "https".toList) :
    readBaseUrl s = readBaseUrl s' := by
  have hfile : server.scheme ≠ Url.fileScheme := by
    rcases hscheme with h | h <;> rw [h] <;> decide
  have hclosed := Url.map_closePath_ofText h hserver (isSpecial_of_web hscheme) hfile
  rw [readBaseUrl, readBaseUrl, map_mapError, map_mapError, hclosed]

/-- **It does not matter whether the base is configured with a slash at its end.** -/
theorem ofConfig_of_addsSlash (hclient : ofConfig config = (.ok c, log))
    (hscheme : c.baseUrl.scheme = "http".toList ∨ c.baseUrl.scheme = "https".toList)
    {other : String}
    (h : Url.AddsSlash config.baseUrl other ∨ Url.AddsSlash other config.baseUrl) :
    ofConfig { config with baseUrl := other } = (.ok c, log) := by
  obtain ⟨server, hserver, hclosed⟩ := baseUrl_of_ofConfig hclient
  rw [hclosed, Url.scheme_closePath] at hscheme
  have hbase : readBaseUrl other = readBaseUrl config.baseUrl := by
    rcases h with h | h
    · exact (readBaseUrl_of_addsSlash h (.inl hserver) hscheme).symm
    · exact readBaseUrl_of_addsSlash h (.inr hserver) hscheme
  rw [← hclient, ofConfig, ofConfig, hbase]

/-! ### Requests -/

/-- **Requests stay on the server that was configured, and endpoints lie right below its address.**

* Every call has an address, unless it is a listing whose query cannot be built.
* The address is on the server, whatever the arguments are, and all that the call sends goes there.
* An endpoint that does not depend on the arguments is found at the path of the server, closed by a
  slash unless it ends in one, with the call's own query or none.
* A client whose base is written with or without the slash at its end is the same, and so are all of
  its addresses. -/
theorem requests_below_base (hclient : ofConfig config = (.ok c, log))
    (hscheme : c.baseUrl.scheme = "http".toList ∨ c.baseUrl.scheme = "https".toList) :
    ∃ server, Url.ofText config.baseUrl = .ok server ∧
      (∀ call : FacadeCall, ¬ call.IsUnbuildable → ∃ u, call.url c = .ok u) ∧
      (∀ (call : FacadeCall) u, call.url c = .ok u →
        u.IsOnServer server ∧
        (∀ endpoint, call.endpoint? = some endpoint → u.IsEndpoint server endpoint call.query?) ∧
        ∀ transport moment, ∀ r ∈ (c.call transport call moment).sent, r.url = u) ∧
      ∀ other, Url.AddsSlash config.baseUrl other ∨ Url.AddsSlash other config.baseUrl →
        ofConfig { config with baseUrl := other } = (.ok c, log) := by
  obtain ⟨l, hbase⟩ := exists_isBase hclient hscheme
  obtain ⟨server, hserver, hclosed⟩ := baseUrl_of_ofConfig hclient
  have hspecial := isSpecial_of_web hscheme
  have hpath := pathText_baseUrl hserver hclosed hscheme
  refine ⟨server, hserver, fun call hcall => (call.exists_url_iff hbase.isHierarchical).mpr hcall,
    fun call u hu => ⟨?_, fun endpoint hendpoint => ?_, fun transport moment r hr => ?_⟩,
    fun other hother => ofConfig_of_addsSlash hclient hscheme hother⟩
  · have hserver := isOnServer_baseUrl hbase hspecial hu
    rw [hclosed] at hserver
    exact ⟨hserver.scheme.trans (Url.scheme_closePath server),
      hserver.authority.trans (Url.authority_closePath server)⟩
  · obtain ⟨pieces, hpieces, rfl⟩ := exists_pieces_of_endpoint? hbase hspecial hendpoint hu
    exact ⟨(hbase.pathText_below hpieces).trans (congrArg (· ++ _) hpath), rfl, rfl⟩
  · exact url_of_mem_sent hbase.isHierarchical call hu hr

/-- Without configuration, the settings are found right below the local server, and the client is
the same with a slash at the end of its base. -/
theorem requests_below_base_default :
    ∃ c log, ofConfig .default = (.ok c, log) ∧ c.baseUrl.scheme = "http".toList ∧
      (∃ server u, Url.ofText ClientConfig.default.baseUrl = .ok server ∧
        FacadeCall.url c .sharedConfig = .ok u ∧ u.IsOnServer server ∧
        u.IsEndpoint server "configs/shared" none) ∧
      ofConfig { ClientConfig.default with baseUrl := "http://localhost:3003/api/v1/" } =
        (.ok c, log) := by
  obtain ⟨c, log, hclient, hscheme, -⟩ := exists_client_default
  obtain ⟨server, hserver, hexists, hurl, hslash⟩ := requests_below_base hclient (.inl hscheme)
  obtain ⟨u, hu⟩ := hexists .sharedConfig (by rintro ⟨q, fault, hcall, -⟩; exact nomatch hcall)
  obtain ⟨hon, hendpoint, -⟩ := hurl _ u hu
  refine ⟨c, log, hclient, hscheme, ⟨server, u, hserver, hu, hon, hendpoint _ rfl⟩,
    hslash _ (.inl ?_)⟩
  have hlast : (Url.beforeTail (Url.cleaned ClientConfig.default.baseUrl)).getLast? = some '1' := by
    decide +kernel
  refine ⟨⟨'/', rfl, by decide +kernel⟩, by decide +kernel, fun d hd => ?_⟩
  obtain rfl := Option.some.inj (hlast.symm.trans hd)
  rfl

end Client

end WalletApi
