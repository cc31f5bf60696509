import WalletApi.Proofs.Query.Names
import WalletApi.Proofs.Query.Places

/-!
# What a query is made into

Parameters are put into a map one after another, each at the end of the values of its name. Nothing
is lost on the way and nothing is moved within a name, so that the map can be told from the list: a
name has the values of its parameters, in order and never none of them
(`WalletApi.QueryValues.get?_eq`), and there are as many values as parameters
(`WalletApi.QueryValues.count_foldl_push`).

The list is that of the scalars of the query (`WalletApi.TransactionsQuery.scalars`), whose names
are all different, followed by the leaves of its metadata in the order of their places
(`WalletApi.placedLeaves`). The name of a leaf begins like no scalar's, so that the two never share
a name, whatever the keys of the metadata are. What is no leaf adds nothing: a query without its
`null`s and empty containers (`WalletApi.Json.Metadata.pruned`) is made into the same.

The order of places is that of the values where objects are sorted, and so it is for all metadata
that was read from a document (`WalletApi.TransactionsQuery.under_of_read`).
-/

namespace WalletApi

open Json (Value Metadata)

/-! ### Maps of values -/

/-- An entry put in its place takes away the size of what had its key. -/
theorem SortedMap.sum_insertEntry {α : Type} (size : α → ℕ) (key : String) (value : α)
    {l : List (String × α)} (hl : l.Pairwise fun a b => a.1 < b.1) :
    ((insertEntry key value l).map fun e => size e.2).sum + ((l.lookup key).map size).getD 0 =
      (l.map fun e => size e.2).sum + size value := by
  induction l with
  | nil => simp [insertEntry]
  | cons e rest ih =>
    obtain ⟨k, v⟩ := e
    obtain ⟨hk, hrest⟩ := List.pairwise_cons.mp hl
    rw [insertEntry]
    split
    · next hlt =>
      have hnone : ((k, v) :: rest).lookup key = none := by
        refine List.lookup_eq_none_iff.mpr fun e he => bne_iff_ne.mpr ?_
        rcases List.mem_cons.mp he with rfl | he
        · exact fun heq : key = k => String.lt_irrefl k (heq ▸ hlt)
        · exact fun heq => String.lt_irrefl key (String.lt_trans hlt (heq ▸ hk e he))
      rw [hnone, List.map_cons, List.sum_cons, Option.map_none, Option.getD_none, Nat.add_zero,
        Nat.add_comm]
    · split
      · next heq =>
        rw [heq, List.lookup_cons_self, Option.map_some, Option.getD_some]
        simp only [List.map_cons, List.sum_cons]
        omega
      · next hne =>
        have hlookup : ((k, v) :: rest).lookup key = rest.lookup key := by
          rw [List.lookup_cons, beq_eq_false_iff_ne.mpr hne]
        have := ih hrest
        rw [hlookup]
        simp only [List.map_cons, List.sum_cons]
        omega

namespace QueryValues

/-- Every name has a value. -/
def NonEmpty (values : QueryValues) : Prop := ∀ e ∈ values.entries, e.2 ≠ []

theorem NonEmpty.push {values : QueryValues} (h : values.NonEmpty) (p : Parameter) :
    (values.push p).NonEmpty := by
  intro e he
  rcases SortedMap.mem_insertEntry he with rfl | he
  · exact List.append_ne_nil_of_right_ne_nil _ (List.cons_ne_nil _ _)
  · exact h e he

theorem NonEmpty.foldl_push {values : QueryValues} (h : values.NonEmpty) (ps : List Parameter) :
    NonEmpty (ps.foldl QueryValues.push values) := by
  induction ps generalizing values with
  | nil => exact h
  | cons p ps ih => exact ih (h.push p)

/-- Where no name is without values, the values of a name tell whether it is there. -/
theorem NonEmpty.get?_eq_some_iff {values : QueryValues} (h : values.NonEmpty) {name : String}
    {l : List String} : values.get? name = some l ↔ values.under name = l ∧ l ≠ [] := by
  rw [under]
  cases hget : values.get? name with
  | none =>
    refine ⟨fun hl => absurd hl.symm (Option.some_ne_none l), ?_⟩
    rintro ⟨hl, hne⟩
    exact absurd hl.symm hne
  | some found =>
    rw [Option.getD_some, Option.some.injEq]
    refine ⟨fun hl => ⟨hl, ?_⟩, And.left⟩
    obtain ⟨before, after, hentries, -⟩ := List.lookup_eq_some_iff.mp hget
    exact h (name, l) (by rw [hentries, hl]; exact List.mem_append_right _ List.mem_cons_self)

/-- How many values there are. -/
def count (values : QueryValues) : ℕ := (values.entries.map fun e => e.2.length).sum

theorem count_push (values : QueryValues) (p : Parameter) :
    (values.push p).count = values.count + 1 := by
  have hsum := SortedMap.sum_insertEntry List.length p.1 ((values.get? p.1).getD [] ++ [p.2])
    values.sorted
  have hlength : (((values.entries.lookup p.1).map List.length).getD 0) =
      ((values.get? p.1).getD []).length := by
    rw [SortedMap.get?]
    cases values.entries.lookup p.1 with
    | none => rfl
    | some l => rfl
  rw [hlength, List.length_append, List.length_singleton] at hsum
  have hcount : (values.push p).count + ((values.get? p.1).getD []).length =
      values.count + (((values.get? p.1).getD []).length + 1) := hsum
  omega

/-- Every parameter makes one value. -/
theorem count_foldl_push (values : QueryValues) (ps : List Parameter) :
    count (ps.foldl QueryValues.push values) = values.count + ps.length := by
  induction ps generalizing values with
  | nil => rfl
  | cons p ps ih => rw [List.foldl_cons, ih, count_push, List.length_cons, Nat.add_right_comm,
      Nat.add_assoc]

end QueryValues

/-! ### Scalars -/

namespace TransactionsQuery

/-- **The scalars of a query**: the names of its parameters other than the metadata, each with its
value where that is set. -/
def scalars (q : TransactionsQuery) : List (String × Option String) :=
  [("page", q.page.map toString), ("size", q.pageSize.map toString), ("sortBy", q.orderBy),
    ("sort", q.sort.map SortDirection.name),
    ("includeDeleted", q.filter.includeDeleted.map fun b => if b then "true" else "false"),
    ("createdRange[from]", q.filter.createdRange.bind fun r => r.start.map Timestamp.text),
    ("createdRange[to]", q.filter.createdRange.bind fun r => r.stop.map Timestamp.text),
    ("updatedRange[from]", q.filter.updatedRange.bind fun r => r.start.map Timestamp.text),
    ("updatedRange[to]", q.filter.updatedRange.bind fun r => r.stop.map Timestamp.text),
    ("id", q.filter.id), ("hex", q.filter.hex), ("blockHash", q.filter.blockHash),
    ("draftId", q.filter.draftId), ("status", q.filter.status),
    ("blockHeight", q.filter.blockHeight.map toString)]

/-- The scalars that are set make parameters. -/
theorem scalarParameters_eq (q : TransactionsQuery) :
    q.scalarParameters = q.scalars.flatMap fun s => Parameter.ofText s.1 s.2 := by
  obtain ⟨page, size, orderBy, sort, ⟨deleted, created, updated, id, hex, hash, height, draft,
    status⟩, metadata, maxDepth⟩ := q
  cases created <;> cases updated <;>
    simp [scalarParameters, scalars, TransactionFilter.parameters, TimeRange.parameters,
      Parameter.ofText, Parameter.ofOption, Option.map_map, Function.comp_def]

/-- No two scalars have one name, and no name begins like that of metadata. -/
theorem scalar_names (q : TransactionsQuery) :
    (q.scalars.map Prod.fst).Nodup ∧
      ∀ s ∈ q.scalars, ¬ "metadata[".toList <+: s.1.toList := by
  have hnames : q.scalars.map Prod.fst = ["page", "size", "sortBy", "sort", "includeDeleted",
      "createdRange[from]", "createdRange[to]", "updatedRange[from]", "updatedRange[to]", "id",
      "hex", "blockHash", "draftId", "status", "blockHeight"] := rfl
  constructor
  · rw [hnames]
    decide
  · have happart : ∀ name ∈ q.scalars.map Prod.fst, ¬ "metadata[".toList <+: name.toList := by
      rw [hnames]
      decide
    exact fun s hs => happart s.1 (List.mem_map_of_mem hs)

end TransactionsQuery

/-- Among names that are all different, a name has its own value. -/
theorem map_filter_flatMap_ofText {l : List (String × Option String)}
    (hnodup : (l.map Prod.fst).Nodup) {s : String × Option String} (hs : s ∈ l) :
    ((l.flatMap fun s => Parameter.ofText s.1 s.2).filter fun p => p.1 = s.1).map Prod.snd =
      s.2.toList := by
  have hown : ∀ t : String × Option String, t.1 = s.1 →
      ((Parameter.ofText t.1 t.2).filter fun p => p.1 = s.1).map Prod.snd = t.2.toList := by
    rintro ⟨name, value⟩ rfl
    cases value <;> simp [Parameter.ofText, Parameter.ofOption]
  have hother : ∀ t : String × Option String, t.1 ≠ s.1 →
      (Parameter.ofText t.1 t.2).filter (fun p => p.1 = s.1) = [] := by
    rintro ⟨name, value⟩ hne
    cases value <;> simp_all [Parameter.ofText, Parameter.ofOption]
  induction l with
  | nil => exact absurd hs List.not_mem_nil
  | cons t rest ih =>
    obtain ⟨ht, hrest⟩ := List.nodup_cons.mp hnodup
    rw [List.flatMap_cons, List.filter_append, List.map_append]
    rcases List.mem_cons.mp hs with rfl | hs
    · have hnone : (rest.flatMap fun s => Parameter.ofText s.1 s.2).filter (fun p => p.1 = s.1) =
          [] := by
        rw [List.filter_flatMap, List.flatMap_eq_nil_iff]
        intro t hmem
        exact hother t fun heq => ht (heq ▸ List.mem_map_of_mem hmem)
      rw [hown s rfl, hnone, List.map_nil, List.append_nil]
    · rw [hother t fun heq => ht (heq ▸ List.mem_map_of_mem hs), ih hrest hs]
      rfl

/-! ### Names of leaves -/

/-- The name of what is in the metadata begins with that of the metadata. -/
theorem metadata_isPrefix_placeName {place : Place} (h : place ≠ []) :
    "metadata[".toList <+: (placeName place).toList := by
  have hgrows : ∀ (way : List MetadataStep) (name : String),
      name.toList <+: (way.foldl MetadataStep.extend name).toList := by
    intro way
    induction way with
    | nil => exact fun name => List.prefix_rfl
    | cons s way ih =>
      intro name
      refine List.IsPrefix.trans ?_ (ih (s.extend name))
      rw [toList_extend]
      exact List.prefix_append _ _
  obtain ⟨s, rest, rfl⟩ := List.exists_cons_of_ne_nil h
  refine List.IsPrefix.trans ?_ (hgrows (rest.map PlaceStep.erased) (s.erased.extend "metadata"))
  rw [toList_extend]
  exact ⟨s.erased.text ++ [']'], rfl⟩

/-! ### Values that add nothing -/

namespace Json

/-- The value is `null` or an empty container. -/
def Value.isVoid : Value → Bool
  | .null => true
  | .array [] => true
  | .object [] => true
  | _ => false

mutual
/-- A value without the `null`s and the empty containers in it. -/
def Value.pruned : Value → Value
  | .array items => .array (prunedItems items)
  | .object members => .object (prunedMembers members)
  | v => v

/-- The items that are not void, themselves pruned. -/
def prunedItems : List Value → List Value
  | [] => []
  | v :: rest => if v.isVoid then prunedItems rest else v.pruned :: prunedItems rest

/-- The members that are not void, themselves pruned. -/
def prunedMembers : List (String × Value) → List (String × Value)
  | [] => []
  | (k, v) :: rest => if v.isVoid then prunedMembers rest else (k, v.pruned) :: prunedMembers rest
end

theorem keys_prunedMembers_sublist (members : List (String × Value)) :
    ((prunedMembers members).map Prod.fst).Sublist (members.map Prod.fst) := by
  induction members with
  | nil => exact .slnil
  | cons m rest ih =>
    rw [prunedMembers]
    split
    · exact ih.cons m.1
    · exact ih.cons_cons m.1

/-- **Metadata without its `null`s and empty containers.** -/
def Metadata.pruned (m : Metadata) : Metadata where
  entries := prunedMembers m.entries
  sorted := List.pairwise_map.mp
    ((List.pairwise_map.mpr m.sorted).sublist (keys_prunedMembers_sublist m.entries))

end Json

/-- A void value makes no parameter. -/
theorem eq_nil_of_leaves_isVoid {maxDepth level : ℕ} {name : String} {v : Value}
    (hvoid : v.isVoid = true) {ps : List Parameter} (h : leaves maxDepth level name v = .ok ps) :
    ps = [] := by
  rw [leaves.eq_def] at h
  split at h
  · exact nomatch h
  · match v with
    | .null => exact (Except.ok.inj h).symm
    | .array [] => exact (Except.ok.inj h).symm
    | .object [] => exact (Except.ok.inj h).symm

mutual
/-- Pruning does not change the parameters of a value. -/
theorem leaves_pruned {maxDepth level : ℕ} {name : String} :
    ∀ {v : Value} {ps : List Parameter}, leaves maxDepth level name v = .ok ps →
      leaves maxDepth level name v.pruned = .ok ps := by
  intro v ps h
  rw [leaves.eq_def] at h ⊢
  split at h
  · exact nomatch h
  · next hallowed =>
    rw [if_neg hallowed]
    cases v with
    | null => exact h
    | bool b => exact h
    | number n => exact h
    | string s => exact h
    | array items => exact leavesOfItems_pruned h
    | object members => exact leavesOfMembers_pruned h

theorem leavesOfItems_pruned {maxDepth level : ℕ} {name : String} :
    ∀ {items : List Value} {ps : List Parameter},
      leavesOfItems maxDepth level name items = .ok ps →
        leavesOfItems maxDepth level name (Json.prunedItems items) = .ok ps
  | [], _, h => h
  | v :: rest, ps, h => by
    obtain ⟨first, hfirst, h⟩ := bind_eq_ok.mp h
    obtain ⟨others, hothers, h⟩ := bind_eq_ok.mp h
    obtain rfl := Except.ok.inj h
    rw [Json.prunedItems]
    split
    · next hvoid =>
      rw [eq_nil_of_leaves_isVoid hvoid hfirst]
      exact leavesOfItems_pruned hothers
    · rw [leavesOfItems, leaves_pruned hfirst, leavesOfItems_pruned hothers]
      rfl

theorem leavesOfMembers_pruned {maxDepth level : ℕ} {name : String} :
    ∀ {members : List (String × Value)} {ps : List Parameter},
      leavesOfMembers maxDepth level name members = .ok ps →
        leavesOfMembers maxDepth level name (Json.prunedMembers members) = .ok ps
  | [], _, h => h
  | (k, v) :: rest, ps, h => by
    obtain ⟨first, hfirst, h⟩ := bind_eq_ok.mp h
    obtain ⟨others, hothers, h⟩ := bind_eq_ok.mp h
    obtain rfl := Except.ok.inj h
    rw [Json.prunedMembers]
    split
    · next hvoid =>
      rw [eq_nil_of_leaves_isVoid hvoid hfirst]
      exact leavesOfMembers_pruned hothers
    · rw [leavesOfMembers, leaves_pruned hfirst, leavesOfMembers_pruned hothers]
      rfl
end

/-! ### Queries -/

namespace TransactionsQuery

variable {q : TransactionsQuery} {values : QueryValues}

theorem nonEmpty_of_build (h : q.build = .ok values) : values.NonEmpty := by
  obtain ⟨ps, -, rfl⟩ := map_eq_ok.mp h
  have hempty : QueryValues.NonEmpty .empty := fun e he => absurd he List.not_mem_nil
  exact hempty.foldl_push ps

/-- The leaves of metadata whose place has a name, in order. -/
theorem texts_under (h : q.build = .ok values) (name : String) :
    values.under name = (q.scalarParameters.filter fun p => p.1 = name).map Prod.snd ++
      ((placedLeaves q.metadata).filter fun leaf => placeName leaf.place = name).map
        PlacedLeaf.text := by
  rw [under_of_build h, metadataLeaves_eq, List.filter_map, List.map_map]
  rfl

/-- No leaf has a name that does not begin like one of metadata. -/
theorem filter_placeName_eq_nil {m : Metadata} {name : String}
    (h : ¬ "metadata[".toList <+: name.toList) :
    (placedLeaves m).filter (fun leaf => placeName leaf.place = name) = [] := by
  refine List.filter_eq_nil_iff.mpr fun leaf hleaf heq => h ?_
  rw [← of_decide_eq_true heq]
  refine metadata_isPrefix_placeName fun hroot => ?_
  obtain ⟨v, hat, htext⟩ := mem_placedLeaves.mp hleaf
  rw [hroot] at hat
  cases hat
  exact nomatch htext

theorem filter_scalarParameters_eq_nil {name : String} (h : name ∉ q.scalars.map Prod.fst) :
    (q.scalarParameters.filter fun p => p.1 = name) = [] := by
  rw [scalarParameters_eq, List.filter_flatMap, List.flatMap_eq_nil_iff]
  rintro ⟨other, value⟩ hs
  have hne : other ≠ name := fun heq => h (heq ▸ List.mem_map_of_mem hs)
  cases value <;> simp [Parameter.ofText, Parameter.ofOption, hne]

/-- A name that begins like one of metadata has the texts of its leaves. -/
theorem under_of_isPrefix (h : q.build = .ok values) {name : String}
    (hname : "metadata[".toList <+: name.toList) :
    values.under name = ((placedLeaves q.metadata).filter fun leaf =>
      placeName leaf.place = name).map PlacedLeaf.text := by
  have hscalars : name ∉ q.scalars.map Prod.fst := fun hmem => by
    obtain ⟨s, hs, rfl⟩ := List.mem_map.mp hmem
    exact q.scalar_names.2 s hs hname
  rw [texts_under h, filter_scalarParameters_eq_nil hscalars]
  rfl

theorem count_of_build (h : q.build = .ok values) :
    values.count = (q.scalars.filter fun s => s.2.isSome).length +
      (placedLeaves q.metadata).length := by
  obtain ⟨ps, hps, rfl⟩ := map_eq_ok.mp h
  have hscalars : ∀ l : List (String × Option String),
      (l.flatMap fun s => Parameter.ofText s.1 s.2).length =
        (l.filter fun s => s.2.isSome).length := by
    intro l
    induction l with
    | nil => rfl
    | cons s rest ih =>
      obtain ⟨name, value⟩ := s
      rw [List.flatMap_cons, List.length_append, ih, List.filter_cons]
      cases value with
      | none => exact Nat.zero_add _
      | some text => exact Nat.add_comm _ _
  have hempty : QueryValues.count .empty = 0 := rfl
  rw [QueryValues.count_foldl_push, hempty, parameters_eq_ok hps, List.length_append,
    List.length_map, metadataLeaves_eq, List.length_map, scalarParameters_eq, hscalars,
    Nat.zero_add]

theorem build_pruned (h : q.build = .ok values) :
    { q with metadata := Json.Metadata.pruned q.metadata }.build = .ok values := by
  obtain ⟨ps, hps, hvalues⟩ := map_eq_ok.mp h
  obtain ⟨ofMetadata, hleaves, hparameters⟩ := map_eq_ok.mp hps
  refine map_eq_ok.mpr ⟨ps, map_eq_ok.mpr ⟨ofMetadata, ?_, hparameters⟩, hvalues⟩
  exact leavesOfMembers_pruned hleaves

/-- **A query is made into its scalars and its leaves, and nothing else.** Each scalar has its own
value or none; every other name begins like one of metadata, and has the texts of the leaves whose
places have the name, which are all leaves there are and in the order of their places. No name is
without values, and what is no leaf adds none. -/
theorem build_faithful (h : q.build = .ok values) :
    (∀ s ∈ q.scalars, values.get? s.1 = s.2.map fun text => [text]) ∧
    (∀ name l, values.get? name = some l →
      l ≠ [] ∧ (name ∈ q.scalars.map Prod.fst ∨ "metadata[".toList <+: name.toList)) ∧
    (∀ name, "metadata[".toList <+: name.toList →
      values.under name = ((placedLeaves q.metadata).filter fun leaf =>
        placeName leaf.place = name).map PlacedLeaf.text) ∧
    (∀ leaf, leaf ∈ placedLeaves q.metadata ↔ ∃ v,
      StandsAt leaf.place (Value.metadata q.metadata) v ∧ scalarText? v = some leaf.text) ∧
    ((Value.metadata q.metadata).IsSorted →
      (placedLeaves q.metadata).Pairwise fun a b => Precedes a.place b.place) ∧
    values.count = (q.scalars.filter fun s => s.2.isSome).length +
      (placedLeaves q.metadata).length ∧
    { q with metadata := Json.Metadata.pruned q.metadata }.build = .ok values := by
  have hnonEmpty := nonEmpty_of_build h
  obtain ⟨hnodup, happart⟩ := q.scalar_names
  have hscalar : ∀ s ∈ q.scalars, values.under s.1 = s.2.toList := fun s hs => by
    rw [texts_under h, filter_placeName_eq_nil (happart s hs), scalarParameters_eq,
      map_filter_flatMap_ofText hnodup hs, List.map_nil, List.append_nil]
  refine ⟨fun s hs => ?_, fun name l hget => ?_, fun _ => under_of_isPrefix h,
    fun _ => mem_placedLeaves, pairwise_precedes_placedLeaves, count_of_build h, build_pruned h⟩
  · cases hget : values.get? s.1 with
    | none =>
      have hunder := hscalar s hs
      rw [QueryValues.under, hget] at hunder
      rw [Option.toList_eq_nil_iff.mp hunder.symm]
      rfl
    | some l =>
      obtain ⟨hunder, hne⟩ := hnonEmpty.get?_eq_some_iff.mp hget
      rw [hscalar s hs] at hunder
      cases hvalue : s.2 with
      | none => exact absurd (by rw [← hunder, hvalue]; rfl) hne
      | some text => rw [← hunder, hvalue]; rfl
  · obtain ⟨hunder, hne⟩ := hnonEmpty.get?_eq_some_iff.mp hget
    refine ⟨hne, ?_⟩
    by_contra hneither
    obtain ⟨hname, hopening⟩ := not_or.mp hneither
    rw [texts_under h, filter_scalarParameters_eq_nil hname, filter_placeName_eq_nil hopening]
      at hunder
    exact hne hunder.symm

/-- A query for a page, with tags and `null`s in its metadata. -/
def mixed : TransactionsQuery :=
  { TransactionsQuery.default with
    page := some 3
    metadata :=
      ⟨[("p", .object [("k", .bool true), ("z", .array [])]),
        ("tags", .array [.string "x", .null, .object [], .string "y"])], by decide⟩ }

theorem isSorted_mixed : (Value.metadata mixed.metadata).IsSorted := by
  have hread : Json.Reader.metadata 3 (Json.Doc.ofValue (.metadata mixed.metadata)) =
      .ok mixed.metadata := rfl
  exact Json.isSorted_of_metadata hread

/-- The page, the key and the two tags are all there is, the tags in their order. -/
theorem build_faithful_mixed :
    ∃ values, mixed.build = .ok values ∧ values.get? "page" = some ["3"] ∧
      values.get? "size" = none ∧ values.under "metadata[tags][]" = ["x", "y"] ∧
      values.count = 4 ∧
      (placedLeaves mixed.metadata).Pairwise (fun a b => Precedes a.place b.place) ∧
      { mixed with metadata := Json.Metadata.pruned mixed.metadata }.build = .ok values := by
  have hbuild : mixed.build.isOk = true := by decide +kernel
  obtain ⟨values, hvalues⟩ := exists_of_isOk hbuild
  obtain ⟨hscalars, -, hleaves, -, horder, hcount, hpruned⟩ := build_faithful hvalues
  refine ⟨values, hvalues, hscalars ("page", some "3") ?_, hscalars ("size", none) ?_, ?_, ?_,
    horder isSorted_mixed, hpruned⟩
  · exact List.mem_cons_self
  · exact List.mem_cons_of_mem _ List.mem_cons_self
  · rw [hleaves "metadata[tags][]" (by decide)]
    decide +kernel
  · rw [hcount]
    decide +kernel

/-- **Where the metadata was read from a document**, it is sorted: the values of a name are those of
its leaves in the order of their places. -/
theorem under_of_read {d : Json.Doc} {depth : ℕ}
    (hread : Json.Reader.metadata depth d = .ok q.metadata) (h : q.build = .ok values)
    {name : String} (hname : "metadata[".toList <+: name.toList) :
    ∃ leaves : List PlacedLeaf, values.under name = leaves.map PlacedLeaf.text ∧
      leaves.Pairwise (fun a b => Precedes a.place b.place) ∧
      ∀ leaf, leaf ∈ leaves ↔ placeName leaf.place = name ∧ ∃ v,
        StandsAt leaf.place (Value.metadata q.metadata) v ∧ scalarText? v = some leaf.text := by
  have hsorted := Json.isSorted_of_metadata hread
  refine ⟨_, under_of_isPrefix h hname, (pairwise_precedes_placedLeaves hsorted).filter _,
    fun leaf => ?_⟩
  rw [List.mem_filter, mem_placedLeaves, decide_eq_true_eq, and_comm]

end TransactionsQuery

end WalletApi
