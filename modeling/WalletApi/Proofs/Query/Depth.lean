import WalletApi.Proofs.Query.Places

/-!
# How deep metadata may nest

A query is refused where its metadata has a node beyond the allowed level, whatever value stands
there. The walk checks a node before it looks at what is inside, so that it ends at the first such
node, and that one is on the level after the last allowed one: it would not have been reached
without passing every level above. Which fault this makes is
`WalletApi.TransactionsQuery.fault?_build`; all else about the limit follows from it, since what a
query makes of its metadata does not look at the limit otherwise
(`WalletApi.TransactionsQuery.build_eq_ok_iff`). The first node of the walk is at the first place
where objects are sorted, and so it is for all metadata that was read from a document
(`WalletApi.TransactionsQuery.exists_first_of_read`).
-/

namespace WalletApi

open Json (Value Metadata)

/-! ### The first node that is too deep -/

section Fault

variable {ε α β : Type}

/-- The error that a computation ends in, if it does. -/
def fault? : Except ε α → Option ε
  | .error e => some e
  | .ok _ => none

theorem fault?_map (x : Except ε α) (f : α → β) : fault? (x.map f) = fault? x := by
  cases x with
  | error e => rfl
  | ok a => rfl

theorem fault?_eq_some_iff {x : Except ε α} {e : ε} : fault? x = some e ↔ x = .error e := by
  cases x with
  | error e' => rw [fault?, Option.some.injEq, Except.error.injEq]
  | ok a => exact ⟨fun h => (nomatch h), fun h => (nomatch h)⟩

/-- Of two computations one after the other, the second fails only if the first does not. -/
theorem fault?_append (x y : Except ε (List α)) :
    fault? (do let a ← x; let b ← y; pure (a ++ b)) = (fault? x).or (fault? y) := by
  cases x with
  | error e => rfl
  | ok a =>
    cases y with
    | error e => rfl
    | ok b => rfl

end Fault

/-- The fault for the first of some nodes that is beyond a level. -/
def firstFault? (limit : ℕ) (nodes : List MetadataNode) : Option QueryFault :=
  (nodes.find? fun n => limit < n.level).map fun n => .tooDeep limit (placeName n.place)

theorem firstFault?_append (limit : ℕ) (nodes others : List MetadataNode) :
    firstFault? limit (nodes ++ others) =
      (firstFault? limit nodes).or (firstFault? limit others) := by
  rw [firstFault?, List.find?_append, Option.map_or]
  rfl

theorem firstFault?_eq_none_iff {limit : ℕ} {nodes : List MetadataNode} :
    firstFault? limit nodes = none ↔ ∀ n ∈ nodes, n.level ≤ limit := by
  rw [firstFault?, Option.map_eq_none_iff, List.find?_eq_none]
  exact forall₂_congr fun n _ => by rw [decide_eq_true_eq, Nat.not_lt]

theorem placeName_concat (place : Place) (s : PlaceStep) :
    placeName (place ++ [s]) = s.erased.extend (placeName place) := by
  rw [placeName, List.map_append, List.map_singleton, wayName_concat]
  rfl

mutual
/-- **A value is refused for its first node that is too deep**, if there is one. -/
theorem fault?_leaves (limit : ℕ) (place : Place) (v : Value) :
    fault? (leaves limit place.length (placeName place) v) =
      firstFault? limit (nodesFrom place v) := by
  rw [leaves.eq_def, nodesFrom.eq_def, firstFault?, List.find?_cons, MetadataNode.level]
  split
  · next hdeep =>
    rw [decide_eq_true hdeep]
    rfl
  · next hdeep =>
    rw [decide_eq_false hdeep]
    cases v with
    | null => rfl
    | bool b => rfl
    | number n => rfl
    | string s => rfl
    | array items => exact fault?_leavesOfItems limit place 0 items
    | object members => exact fault?_leavesOfMembers limit place members

theorem fault?_leavesOfItems (limit : ℕ) (place : Place) :
    ∀ (i : ℕ) (items : List Value),
      fault? (leavesOfItems limit (place.length + 1) (stepItems (placeName place)) items) =
        firstFault? limit (nodesOfItems place i items)
  | _, [] => rfl
  | i, v :: rest => by
    have hfirst := fault?_leaves limit (place ++ [.index i]) v
    rw [List.length_append, List.length_singleton, placeName_concat] at hfirst
    rw [leavesOfItems, fault?_append, nodesOfItems, firstFault?_append, ← hfirst,
      fault?_leavesOfItems limit place (i + 1) rest]
    rfl

theorem fault?_leavesOfMembers (limit : ℕ) (place : Place) :
    ∀ members : List (String × Value),
      fault? (leavesOfMembers limit (place.length + 1) (placeName place) members) =
        firstFault? limit (nodesOfMembers place members)
  | [] => rfl
  | (k, v) :: rest => by
    have hfirst := fault?_leaves limit (place ++ [.key k]) v
    rw [List.length_append, List.length_singleton, placeName_concat] at hfirst
    rw [leavesOfMembers, fault?_append, nodesOfMembers, firstFault?_append, ← hfirst,
      fault?_leavesOfMembers limit place rest]
    rfl
end

/-! ### Queries -/

namespace TransactionsQuery

variable {q : TransactionsQuery}

/-- **A query fails with the fault of the first node that is too deep.** -/
theorem fault?_build (q : TransactionsQuery) :
    fault? q.build = firstFault? q.maxDepth (metadataNodes q.metadata) := by
  rw [build, fault?_map, parameters, fault?_map]
  exact fault?_leavesOfMembers q.maxDepth [] q.metadata.entries

/-- A query that is not refused has parameters that do not tell the limit. -/
theorem build_eq_ok_iff {values : QueryValues} :
    q.build = .ok values ↔ (∀ n ∈ metadataNodes q.metadata, n.level ≤ q.maxDepth) ∧
      (q.scalarParameters ++ (metadataLeaves q.metadata).map MetadataLeaf.parameter).foldl
        QueryValues.push .empty = values := by
  have hfault := fault?_build q
  constructor
  · intro h
    rw [h] at hfault
    obtain ⟨ps, hps, hvalues⟩ := map_eq_ok.mp h
    exact ⟨firstFault?_eq_none_iff.mp hfault.symm, parameters_eq_ok hps ▸ hvalues⟩
  · rintro ⟨hlevels, hvalues⟩
    rw [firstFault?_eq_none_iff.mpr hlevels] at hfault
    cases hbuild : q.build with
    | error fault =>
      rw [hbuild] at hfault
      exact nomatch hfault
    | ok others =>
      obtain ⟨ps, hps, hothers⟩ := map_eq_ok.mp hbuild
      rw [← hothers, parameters_eq_ok hps, hvalues]

/-- What is too deep is a node, since the metadata itself is above the first level. -/
theorem exists_node_iff {limit : ℕ} {m : Metadata} :
    (∃ n ∈ metadataNodes m, limit < n.level) ↔
      ∃ place v, StandsAt place (Value.metadata m) v ∧ limit < place.length := by
  constructor
  · rintro ⟨n, hn, hdeep⟩
    exact ⟨n.place, n.value, (mem_metadataNodes.mp hn).2, hdeep⟩
  · rintro ⟨place, v, hat, hdeep⟩
    have hplace : place ≠ [] := List.ne_nil_of_length_pos (Nat.zero_lt_of_lt hdeep)
    exact ⟨⟨place, v⟩, mem_metadataNodes.mpr ⟨hplace, hat⟩, hdeep⟩

/-- The place that a fault names comes before every other one that is too deep. -/
theorem precedes_of_find?_metadataNodes {limit : ℕ} {m : Metadata} {n : MetadataNode}
    (h : (metadataNodes m).find? (fun n => limit < n.level) = some n)
    (hsorted : (Value.metadata m).IsSorted) {other : Place} {w : Value}
    (hat : StandsAt other (Value.metadata m) w) (hdeep : limit < other.length) :
    other = n.place ∨ Precedes n.place other := by
  obtain ⟨-, before, after, hnodes, hallowed⟩ := List.find?_eq_some_iff_append.mp h
  have hother : ⟨other, w⟩ ∈ metadataNodes m :=
    mem_metadataNodes.mpr ⟨List.ne_nil_of_length_pos (Nat.zero_lt_of_lt hdeep), hat⟩
  have horder := pairwise_precedes_metadataNodes hsorted
  rw [hnodes] at hother horder
  rcases List.mem_append.mp hother with hbefore | hrest
  · have := hallowed _ hbefore
    simp [MetadataNode.level, hdeep] at this
  · rcases List.mem_cons.mp hrest with rfl | hafter
    · exact .inl rfl
    · exact .inr ((List.pairwise_cons.mp (List.pairwise_append.mp horder).2.1).1 _ hafter)

/-- The fault of a query names a node that no earlier one precedes in the walk. -/
theorem exists_find?_of_build {fault : QueryFault} (h : q.build = .error fault) :
    ∃ n, (metadataNodes q.metadata).find? (fun n => q.maxDepth < n.level) = some n ∧
      fault = .tooDeep q.maxDepth (placeName n.place) ∧
      StandsAt n.place (Value.metadata q.metadata) n.value := by
  have hfault := fault?_build q
  rw [fault?_eq_some_iff.mpr h] at hfault
  obtain ⟨n, hfirst, rfl⟩ := Option.map_eq_some_iff.mp hfault.symm
  exact ⟨n, hfirst, rfl, (mem_metadataNodes.mp (List.mem_of_find?_eq_some hfirst)).2⟩

/-- **The limit on levels of metadata is exact.** A query fails where a value stands beyond the
limit, and it fails with the limit and the name of the first such value, which is on the next level.
A greater limit changes nothing for a query that does not fail, and without metadata none does. -/
theorem depth_limit_exact (q : TransactionsQuery) :
    ((∃ fault, q.build = .error fault) ↔
      ∃ place v, StandsAt place (Value.metadata q.metadata) v ∧ q.maxDepth < place.length) ∧
    (∀ fault, q.build = .error fault → ∃ place v,
      fault = .tooDeep q.maxDepth (placeName place) ∧
      fault.message = "metadata nesting exceeds max depth " ++ toString q.maxDepth ++ " at " ++
        placeName place ∧
      StandsAt place (Value.metadata q.metadata) v ∧ place.length = q.maxDepth + 1 ∧
      ((Value.metadata q.metadata).IsSorted → ∀ other w,
        StandsAt other (Value.metadata q.metadata) w → q.maxDepth < other.length →
          other = place ∨ Precedes place other)) ∧
    (∀ values limit, q.build = .ok values → q.maxDepth ≤ limit →
      { q with maxDepth := limit }.build = .ok values) ∧
    (q.metadata = .empty → ∃ values, q.build = .ok values) := by
  refine ⟨?_, ?_, ?_, ?_⟩
  · rw [← exists_node_iff]
    have hnone : (∃ fault, q.build = .error fault) ↔
        firstFault? q.maxDepth (metadataNodes q.metadata) ≠ none := by
      rw [← fault?_build, Option.ne_none_iff_exists']
      exact exists_congr fun fault => fault?_eq_some_iff.symm
    rw [hnone, Ne, firstFault?_eq_none_iff]
    simp only [not_forall, Nat.not_le, exists_prop]
  · intro fault hbuild
    obtain ⟨n, hfirst, rfl, hat⟩ := exists_find?_of_build hbuild
    exact ⟨n.place, n.value, rfl, rfl, hat, level_of_find?_metadataNodes hfirst,
      fun hsorted other w => precedes_of_find?_metadataNodes hfirst hsorted⟩
  · intro values limit hbuild hlimit
    obtain ⟨hlevels, hvalues⟩ := build_eq_ok_iff.mp hbuild
    exact build_eq_ok_iff.mpr ⟨fun n hn => Nat.le_trans (hlevels n hn) hlimit, hvalues⟩
  · intro hempty
    refine ⟨_, build_eq_ok_iff.mpr ⟨fun n hn => ?_, rfl⟩⟩
    rw [hempty] at hn
    exact absurd hn List.not_mem_nil

/-- A query for a key inside of two others, where two levels are allowed. -/
def nested : TransactionsQuery :=
  { TransactionsQuery.default with
    metadata := .ofList [("a", .object [("b", .object [("c", .array [])])]), ("b", .null)]
    maxDepth := 2 }

/-- Two levels are not enough for three keys, even with nothing at their end, and three are. -/
theorem depth_limit_exact_nested :
    (∃ place, nested.build = .error (.tooDeep 2 (placeName place)) ∧ place.length = 3) ∧
      ∃ values, { nested with maxDepth := 3 }.build = .ok values ∧
        { nested with maxDepth := 100 }.build = .ok values := by
  constructor
  · have hfault : (fault? nested.build).isSome = true := by decide +kernel
    obtain ⟨fault, hfault⟩ := Option.isSome_iff_exists.mp hfault
    have hbuild := fault?_eq_some_iff.mp hfault
    obtain ⟨place, v, rfl, -, -, hlevel, -⟩ := (depth_limit_exact nested).2.1 fault hbuild
    exact ⟨place, hbuild, hlevel⟩
  · have hallowed : { nested with maxDepth := 3 }.build.isOk = true := by decide +kernel
    obtain ⟨values, hbuild⟩ := exists_of_isOk hallowed
    exact ⟨values, hbuild,
      (depth_limit_exact { nested with maxDepth := 3 }).2.2.1 values 100 hbuild (by decide)⟩

/-- **Where the metadata was read from a document**, it is sorted: the fault names the first place
beyond the limit. -/
theorem exists_first_of_read {d : Json.Doc} {depth : ℕ}
    (hread : Json.Reader.metadata depth d = .ok q.metadata) {fault : QueryFault}
    (h : q.build = .error fault) :
    ∃ place v, fault = .tooDeep q.maxDepth (placeName place) ∧
      StandsAt place (Value.metadata q.metadata) v ∧ place.length = q.maxDepth + 1 ∧
      ∀ other w, StandsAt other (Value.metadata q.metadata) w → q.maxDepth < other.length →
        other = place ∨ Precedes place other := by
  obtain ⟨n, hfirst, hfault, hat⟩ := exists_find?_of_build h
  have hsorted := Json.isSorted_of_metadata hread
  exact ⟨n.place, n.value, hfault, hat, level_of_find?_metadataNodes hfirst,
    fun other w => precedes_of_find?_metadataNodes hfirst hsorted⟩

end TransactionsQuery

end WalletApi
