import WalletApi.Proofs.Client.Resources
import WalletApi.Proofs.Query.Values
import WalletApi.Proofs.Text.Utf8Order
import WalletApi.Proofs.Url.Closing
import WalletApi.Proofs.Url.Form

/-!
# Addresses of listings

A listing is asked for at the endpoint of transactions, and what it asks for is the query of the
address. The parameters are written as a form, and the address encodes its query once more; the
server reads the parameters back as they were made, in the order of their names
(`WalletApi.Client.listing_intact`). A query or a fragment of the configured address does not reach
that of the listing: resolving drops both.
-/

namespace WalletApi

/-! ### Parameters by name -/

namespace TransactionsQuery

theorem pairs_eq_nil_iff {values : QueryValues} (h : values.NonEmpty) :
    pairs values = [] ↔ values.isEmpty = true := by
  rw [pairs, List.flatMap_eq_nil_iff, SortedMap.isEmpty, List.isEmpty_iff]
  constructor
  · intro hnil
    refine List.eq_nil_iff_forall_not_mem.mpr fun e he => ?_
    exact h e he (List.map_eq_nil_iff.mp (hnil e he))
  · intro hempty e he
    rw [hempty] at he
    exact absurd he List.not_mem_nil

end TransactionsQuery

/-- The names of a query rise in the order of their bytes. -/
theorem SortedMap.pairwise_encode {α : Type} (m : SortedMap α) :
    (m.entries.map fun e => Utf8.encode e.1.toList).Pairwise (· < ·) :=
  List.pairwise_map.mpr (m.sorted.imp fun h => Utf8.encode_lt (String.lt_iff.mp h))

/-! ### The address -/

/-- **The address lists transactions at a server**: it is the endpoint below the address of the
server, and its query is a form that is read back as the parameters. -/
structure Url.Lists (u server : Url) (values : QueryValues) : Prop where
  scheme : u.scheme = server.scheme
  authority : u.authority = server.authority
  path : Url.pathText u.path =
    Url.withSlash (Url.pathText server.path) ++ Client.transactionsEndpoint.toList
  fragment : u.fragment = none
  query_none : values.isEmpty = true → u.query = none
  query_some : values.isEmpty = false → ∃ cs, u.query = some cs ∧
    (∀ c ∈ cs, Form.IsWritten c) ∧ Form.read? cs = some (TransactionsQuery.pairs values)

namespace Client

variable {c : Client}

theorem sent_call_transactions (transport : Transport) (q : TransactionsQuery) (moment : Moment) :
    (c.call transport (.transactions q) moment).sent =
      (c.transactions transport q moment).sent := by
  rw [call, Outcome.map]

/-- The endpoint of transactions goes below the base. -/
theorem url_transactions {l : List (List Char)} (hbase : c.baseUrl.IsBase l)
    (hspecial : Url.isSpecial c.baseUrl.scheme = true) :
    c.url transactionsEndpoint = .ok { c.baseUrl with
      path := .segments (l ++ [transactionsEndpoint.toList])
      query := none
      fragment := none } := by
  have hcleaned : Url.cleaned (String.ofList (transactionsEndpoint.toList.dropWhile (· == '/'))) =
      't' :: "ransactions".toList := by decide
  have hsplit : Url.splitAtSlashes (Url.isSpecial c.baseUrl.scheme) ('t' :: "ransactions".toList) =
      [transactionsEndpoint.toList] := by
    rw [hspecial]
    rfl
  have hpieces : ∀ piece ∈ Url.splitAtSlashes (Url.isSpecial c.baseUrl.scheme)
      ('t' :: "ransactions".toList), Url.points? piece = none := by
    rw [hsplit]
    exact fun piece hpiece => by rw [List.mem_singleton.mp hpiece]; decide
  have htail : ∀ d ∈ 't' :: "ransactions".toList, Url.beginsTail d = false := by
    simp [Url.beginsTail]
  rw [url, hbase.resolve_of_pieces hcleaned (by decide) (by decide) htail hpieces, hsplit]
  rfl

/-- The path of the base is that of the configured server, closed by a slash. -/
theorem pathText_baseUrl {server : Url} {s : String} (hserver : Url.ofText s = .ok server)
    (hclosed : c.baseUrl = server.closePath)
    (hscheme : c.baseUrl.scheme = "http".toList ∨ c.baseUrl.scheme = "https".toList) :
    Url.pathText c.baseUrl.path = Url.withSlash (Url.pathText server.path) := by
  rw [hclosed, Url.scheme_closePath] at hscheme
  have hfile : server.scheme ≠ Url.fileScheme := by
    rcases hscheme with h | h <;> rw [h] <;> decide
  obtain ⟨rest, hpath⟩ := Url.exists_path_of_ofText hserver (isSpecial_of_web hscheme) hfile
  obtain ⟨l, hl, hfree⟩ := Url.slashFree_pathAfterAuthority hfile rest
  rw [hclosed, Url.pathText_closePath (hpath.trans hl) hfree]

/-- The address of a listing is the endpoint with the form of the parameters, if there are any. -/
theorem listingUrl_eq {q : TransactionsQuery} {values : QueryValues} {u : Url}
    (hurl : c.url transactionsEndpoint = .ok u) (hbuild : q.build = .ok values) :
    c.listingUrl q = .ok (if TransactionsQuery.pairs values = [] then u
      else { u with query := some (Form.encode (TransactionsQuery.pairs values)) }) := by
  have hlisting : c.listingUrl q =
      if String.ofList (Form.encode (TransactionsQuery.pairs values)) = "" then .ok u
      else .ok (u.withQuery (String.ofList (Form.encode (TransactionsQuery.pairs values))).toList)
      := by
    rw [listingUrl, hurl, TransactionsQuery.encode, hbuild]
    rfl
  have hempty : String.ofList (Form.encode (TransactionsQuery.pairs values)) = "" ↔
      TransactionsQuery.pairs values = [] := by
    rw [← String.toList_eq_nil_iff, String.toList_ofList, Form.encode_eq_nil_iff]
  have hwritten : u.withQuery (Form.encode (TransactionsQuery.pairs values)) =
      { u with query := some (Form.encode (TransactionsQuery.pairs values)) } :=
    Form.withQuery_of_isWritten u fun _ hc => Form.isWritten_of_mem_encode hc
  rw [hlisting, String.toList_ofList, hwritten]
  simp only [hempty]
  split
  · rfl
  · rfl

/-- The address of a listing with or without a form. -/
theorem lists_of_pairs {server : Url} (hclosed : c.baseUrl = server.closePath)
    (hpath : Url.pathText c.baseUrl.path = Url.withSlash (Url.pathText server.path))
    {l : List (List Char)} (hbase : c.baseUrl.IsBase l) {values : QueryValues}
    (hvalues : values.NonEmpty) {u : Url}
    (hu : u = { c.baseUrl with
      path := .segments (l ++ [transactionsEndpoint.toList])
      query := none
      fragment := none }) :
    Url.Lists (if TransactionsQuery.pairs values = [] then u
      else { u with query := some (Form.encode (TransactionsQuery.pairs values)) })
      server values := by
  have hendpoint : Url.pathText u.path =
      Url.withSlash (Url.pathText server.path) ++ transactionsEndpoint.toList := by
    rw [hu, ← hpath]
    exact hbase.pathText_below rfl
  have hscheme : u.scheme = server.scheme := by
    rw [← Url.scheme_closePath server, ← hclosed, hu]
  have hauthority : u.authority = server.authority := by
    rw [← Url.authority_closePath server, ← hclosed, hu]
  have hfragment : u.fragment = none := by rw [hu]
  have hempty := TransactionsQuery.pairs_eq_nil_iff hvalues
  split
  · next hpairs =>
    exact ⟨hscheme, hauthority, hendpoint, hfragment, fun _ => by rw [hu], fun hsome => by
      rw [hempty.mp hpairs] at hsome; exact nomatch hsome⟩
  · next hpairs =>
    exact ⟨hscheme, hauthority, hendpoint, hfragment, fun hnone => absurd (hempty.mpr hnone) hpairs,
      fun _ => ⟨_, rfl, fun _ => Form.isWritten_of_mem_encode, Form.read?_encode _⟩⟩

/-- **A listing reaches the server as it was asked for.** Its address is that of the endpoint below
the configured server, and the parameters are read back from its query, name after name in the order
of their bytes and each name's values in the order in which they were made. -/
theorem listing_intact {config : ClientConfig} {log : List LogEvent}
    (hclient : ofConfig config = (.ok c, log))
    (hscheme : c.baseUrl.scheme = "http".toList ∨ c.baseUrl.scheme = "https".toList)
    {q : TransactionsQuery} {values : QueryValues} (hbuild : q.build = .ok values) :
    ∃ server u, Url.ofText config.baseUrl = .ok server ∧ c.listingUrl q = .ok u ∧
      (∀ transport moment, ∀ r ∈ (c.transactions transport q moment).sent, r.url = u) ∧
      u.Lists server values ∧
      (values.entries.map fun e => Utf8.encode e.1.toList).Pairwise (· < ·) := by
  obtain ⟨l, hbase⟩ := exists_isBase hclient hscheme
  obtain ⟨server, hserver, hclosed⟩ := baseUrl_of_ofConfig hclient
  have hurl := url_transactions hbase (isSpecial_of_web hscheme)
  have hlisting := listingUrl_eq hurl hbuild
  refine ⟨server, _, hserver, hlisting, ?_, ?_, values.pairwise_encode⟩
  · intro transport moment r hr
    rw [← sent_call_transactions] at hr
    exact url_of_mem_sent hbase.isHierarchical (.transactions q) hlisting hr
  · exact lists_of_pairs hclosed (pathText_baseUrl hserver hclosed hscheme) hbase
      (TransactionsQuery.nonEmpty_of_build hbuild) rfl

/-- A query with signs in its names and values. -/
def signsQuery : TransactionsQuery :=
  { TransactionsQuery.default with
    orderBy := some "a&b = c+d%20"
    metadata := SortedMap.empty.insert "k&=" (.array [.string "", .string "ü"]) }

/-- Without configuration, a listing with signs in its parameters reaches the local server. -/
theorem listing_intact_default :
    ∃ c log values, ofConfig .default = (.ok c, log) ∧ c.baseUrl.scheme = "http".toList ∧
      signsQuery.build = .ok values ∧ values.isEmpty = false ∧
      ∃ server u, Url.ofText ClientConfig.default.baseUrl = .ok server ∧
        c.listingUrl signsQuery = .ok u ∧ u.Lists server values := by
  obtain ⟨c, log, hclient, hscheme, -⟩ := exists_client_default
  have hsome : signsQuery.build.toOption.map (fun values => values.isEmpty) = some false := by
    decide +kernel
  cases hbuild : signsQuery.build with
  | error fault =>
    rw [hbuild] at hsome
    exact nomatch hsome
  | ok values =>
    rw [hbuild] at hsome
    obtain ⟨server, u, hserver, hurl, -, hlists, -⟩ :=
      listing_intact hclient (.inl hscheme) hbuild
    exact ⟨c, log, values, hclient, hscheme, rfl, Option.some.inj hsome, server, u, hserver, hurl,
      hlists⟩

end Client

end WalletApi
