import Mathlib.Data.List.Lex
import WalletApi.Proofs.Json.Restoring
import WalletApi.Proofs.Query.Leaves

/-!
# Places in metadata

A place tells which value of metadata is meant: the keys and the positions that lead to it from the
root. Unlike a way it tells the items of an array apart, so that places can be put in an order
(`WalletApi.Precedes`): keys in the order of their bytes, items in the order of the array, and a
container before what is inside of it. How long a place is, is the level of the value.

What a walk through metadata visits, one node after another, is `WalletApi.metadataNodes`. That the
walk visits every value once and follows the order of places is settled here, where arrays and
objects no longer differ: both have children (`WalletApi.Json.Value.children`), each behind a step
of its own, and every argument is an induction on them.

* `WalletApi.mem_metadataNodes` – which values are visited;
* `WalletApi.pairwise_precedes_metadataNodes` – in which order;
* `WalletApi.level_of_find?_metadataNodes` – no level is jumped over on the way down;
* `WalletApi.metadataLeaves_eq` – the leaves, without the positions of their places, are those that
  the ways lead to.

The order needs objects that are sorted by key. Metadata that is read from a text is
(`WalletApi.Json.isSorted_of_metadata`).
-/

namespace WalletApi

open Json (Value Metadata)

/-! ### Places -/

/-- A step from a container to one value in it. -/
inductive PlaceStep
  | key (k : String)
  | index (i : ℕ)
deriving DecidableEq

/-- The step without the position that it tells. -/
def PlaceStep.erased : PlaceStep → MetadataStep
  | .key k => .key k
  | .index _ => .item

/-- One step comes before another one from the same container. -/
def PlaceStep.Before : PlaceStep → PlaceStep → Prop
  | .key k, .key l => Utf8.encode k.toList < Utf8.encode l.toList
  | .index i, .index j => i < j
  | _, _ => False

/-- **A place in metadata**: the steps to it from the root. -/
abbrev Place := List PlaceStep

/-- The name of the parameter for what is at a place. -/
def placeName (place : Place) : String := wayName (place.map PlaceStep.erased)

/-- **The order of places**: they part at a step, or the first one leads to a container of the
second one. -/
def Precedes : Place → Place → Prop := List.Lex PlaceStep.Before

/-- The values in a container, each with the step to it. -/
def Json.Value.children : Value → List (PlaceStep × Value)
  | .array items => items.zipIdx.map fun c => (.index c.2, c.1)
  | .object members => members.map fun m => (.key m.1, m.2)
  | _ => []

/-- **A value stands at a place** of another one. -/
inductive StandsAt : Place → Value → Value → Prop
  | here (v : Value) : StandsAt [] v v
  | step {s : PlaceStep} {place : Place} {u v w : Value} :
      (s, u) ∈ v.children → StandsAt place u w → StandsAt (s :: place) v w

/-- What holds of a value whenever it holds of its children holds of every value. -/
theorem Json.Value.induction_children {motive : Value → Prop}
    (h : ∀ v : Value, (∀ c ∈ v.children, motive c.2) → motive v) (v : Value) : motive v := by
  refine h v fun c hc => ?_
  match v with
  | .array items =>
    obtain ⟨⟨u, i⟩, hu, rfl⟩ := List.mem_map.mp hc
    have hsize : sizeOf u < sizeOf items :=
      List.sizeOf_lt_of_mem (List.fst_mem_of_mem_zipIdx hu)
    exact induction_children h u
  | .object members =>
    obtain ⟨⟨k, u⟩, hu, rfl⟩ := List.mem_map.mp hc
    have hsize : sizeOf (k, u) < sizeOf members := List.sizeOf_lt_of_mem hu
    exact induction_children h u
termination_by sizeOf v
decreasing_by
  · simp
    omega
  · simp at hsize ⊢
    omega

/-! ### Nodes -/

/-- **A node of metadata**: a value and its place. -/
structure MetadataNode where
  place : Place
  value : Value

/-- How deep a node is; the values of the metadata itself are on the first level. -/
def MetadataNode.level (n : MetadataNode) : ℕ := n.place.length

mutual
/-- A value at a place, and all that is inside of it. -/
def nodesFrom (place : Place) (v : Value) : List MetadataNode :=
  ⟨place, v⟩ ::
    match v with
    | .array items => nodesOfItems place 0 items
    | .object members => nodesOfMembers place members
    | _ => []

/-- The nodes of the items of an array, from a position on. -/
def nodesOfItems (place : Place) : ℕ → List Value → List MetadataNode
  | _, [] => []
  | i, v :: rest => nodesFrom (place ++ [.index i]) v ++ nodesOfItems place (i + 1) rest

/-- The nodes of the members of an object. -/
def nodesOfMembers (place : Place) : List (String × Value) → List MetadataNode
  | [] => []
  | (k, v) :: rest => nodesFrom (place ++ [.key k]) v ++ nodesOfMembers place rest
end

/-- **The nodes of metadata**, each container before what is inside of it. -/
def metadataNodes (m : Metadata) : List MetadataNode := nodesOfMembers [] m.entries

theorem nodesOfItems_eq (place : Place) (i : ℕ) (items : List Value) :
    nodesOfItems place i items =
      (items.zipIdx i).flatMap fun c => nodesFrom (place ++ [.index c.2]) c.1 := by
  induction items generalizing i with
  | nil => rfl
  | cons v rest ih => rw [nodesOfItems, ih, List.zipIdx_cons, List.flatMap_cons]

theorem nodesOfMembers_eq (place : Place) (members : List (String × Value)) :
    nodesOfMembers place members =
      members.flatMap fun m => nodesFrom (place ++ [.key m.1]) m.2 := by
  induction members with
  | nil => rfl
  | cons m rest ih => rw [nodesOfMembers, ih, List.flatMap_cons]

/-- Below a value are the nodes from its children. -/
theorem nodesFrom_eq (place : Place) (v : Value) :
    nodesFrom place v =
      ⟨place, v⟩ :: v.children.flatMap fun c => nodesFrom (place ++ [c.1]) c.2 := by
  cases v with
  | null => rfl
  | bool b => rfl
  | number n => rfl
  | string s => rfl
  | array items =>
    rw [nodesFrom, Value.children, List.flatMap_map]
    exact congrArg _ (nodesOfItems_eq place 0 items)
  | object members =>
    rw [nodesFrom, Value.children, List.flatMap_map]
    exact congrArg _ (nodesOfMembers_eq place members)

theorem metadataNodes_eq (m : Metadata) :
    metadataNodes m = (Value.metadata m).children.flatMap fun c => nodesFrom [c.1] c.2 := by
  rw [Value.metadata, Value.children, List.flatMap_map]
  exact nodesOfMembers_eq [] m.entries

/-! ### Which values are visited -/

theorem standsAt_cons_iff {s : PlaceStep} {place : Place} {v w : Value} :
    StandsAt (s :: place) v w ↔ ∃ c ∈ v.children, c.1 = s ∧ StandsAt place c.2 w := by
  constructor
  · rintro ⟨⟩
    next hmem hat => exact ⟨_, hmem, rfl, hat⟩
  · rintro ⟨⟨_, u⟩, hmem, rfl, hat⟩
    exact .step hmem hat

theorem mem_nodesFrom {place : Place} {v : Value} {n : MetadataNode} :
    n ∈ nodesFrom place v ↔ ∃ rest, n.place = place ++ rest ∧ StandsAt rest v n.value := by
  induction v using Value.induction_children generalizing place with
  | h v ih =>
    rw [nodesFrom_eq, List.mem_cons, List.mem_flatMap]
    constructor
    · rintro (rfl | ⟨c, hc, hn⟩)
      · exact ⟨[], (List.append_nil place).symm, .here v⟩
      · obtain ⟨rest, hplace, hat⟩ := (ih c hc).mp hn
        exact ⟨c.1 :: rest, by rw [hplace, List.append_assoc]; rfl, .step hc hat⟩
    · rintro ⟨rest, hplace, hat⟩
      cases rest with
      | nil =>
        cases hat
        exact .inl (by rw [List.append_nil] at hplace; rw [← hplace])
      | cons s rest =>
        obtain ⟨c, hc, rfl, hinside⟩ := standsAt_cons_iff.mp hat
        exact .inr ⟨c, hc, (ih c hc).mpr ⟨rest, by rw [hplace, List.append_assoc]; rfl, hinside⟩⟩

/-- **The walk visits what stands in the metadata.** -/
theorem mem_metadataNodes {m : Metadata} {n : MetadataNode} :
    n ∈ metadataNodes m ↔ n.place ≠ [] ∧ StandsAt n.place (Value.metadata m) n.value := by
  rw [metadataNodes_eq, List.mem_flatMap]
  constructor
  · rintro ⟨c, hc, hn⟩
    obtain ⟨rest, hplace, hat⟩ := mem_nodesFrom.mp hn
    rw [hplace]
    exact ⟨List.cons_ne_nil _ _, .step hc hat⟩
  · rintro ⟨hne, hat⟩
    obtain ⟨place, v⟩ := n
    cases place with
    | nil => exact absurd rfl hne
    | cons s rest =>
      obtain ⟨c, hc, rfl, hat⟩ := standsAt_cons_iff.mp hat
      exact ⟨c, hc, mem_nodesFrom.mpr ⟨rest, rfl, hat⟩⟩

/-! ### In which order -/

theorem Json.Value.IsSorted.of_mem_children {v : Value} (h : v.IsSorted) {c : PlaceStep × Value}
    (hc : c ∈ v.children) : c.2.IsSorted := by
  cases h with
  | null => exact absurd hc List.not_mem_nil
  | bool => exact absurd hc List.not_mem_nil
  | number => exact absurd hc List.not_mem_nil
  | string => exact absurd hc List.not_mem_nil
  | array hitems =>
    obtain ⟨⟨u, i⟩, hu, rfl⟩ := List.mem_map.mp hc
    exact hitems u (List.fst_mem_of_mem_zipIdx hu)
  | object _ hmembers =>
    obtain ⟨m, hm, rfl⟩ := List.mem_map.mp hc
    exact hmembers m hm

/-- The steps to the children of a sorted value come one after another. -/
theorem Json.Value.IsSorted.pairwise_before_children {v : Value} (h : v.IsSorted) :
    v.children.Pairwise fun c d => c.1.Before d.1 := by
  cases h with
  | null => exact .nil
  | bool => exact .nil
  | number => exact .nil
  | string => exact .nil
  | @array items _ =>
    have hpositions : (items.zipIdx.map Prod.snd).Pairwise (· < ·) := by
      rw [List.zipIdx_map_snd]
      exact List.pairwise_lt_range'
    exact List.pairwise_map.mpr ((List.pairwise_map.mp hpositions).imp fun hlt => hlt)
  | object hsorted _ =>
    exact List.pairwise_map.mpr (hsorted.imp fun hlt => Utf8.encode_lt (String.lt_iff.mp hlt))

theorem precedes_append_left {p q : Place} (h : Precedes p q) (place : Place) :
    Precedes (place ++ p) (place ++ q) := by
  induction place with
  | nil => exact h
  | cons s place ih => exact .cons ih

/-- The nodes from one child come before those from a later one. -/
theorem pairwise_precedes_flatMap {v : Value} (h : v.IsSorted) (place : Place)
    (hinside : ∀ c ∈ v.children, (nodesFrom (place ++ [c.1]) c.2).Pairwise fun a b =>
      Precedes a.place b.place) :
    (v.children.flatMap fun c => nodesFrom (place ++ [c.1]) c.2).Pairwise fun a b =>
      Precedes a.place b.place := by
  refine List.pairwise_flatMap.mpr ⟨hinside, h.pairwise_before_children.imp ?_⟩
  intro c d hbefore a ha b hb
  obtain ⟨rest, hplace, -⟩ := mem_nodesFrom.mp ha
  obtain ⟨rest', hplace', -⟩ := mem_nodesFrom.mp hb
  rw [hplace, hplace', List.append_assoc, List.append_assoc]
  exact precedes_append_left (.rel hbefore) place

theorem pairwise_precedes_nodesFrom {v : Value} (h : v.IsSorted) (place : Place) :
    (nodesFrom place v).Pairwise fun a b => Precedes a.place b.place := by
  induction v using Value.induction_children generalizing place with
  | h v ih =>
    rw [nodesFrom_eq]
    refine List.pairwise_cons.mpr ⟨fun n hn => ?_, pairwise_precedes_flatMap h place fun c hc =>
      ih c hc (h.of_mem_children hc) _⟩
    obtain ⟨c, -, hn⟩ := List.mem_flatMap.mp hn
    obtain ⟨rest, hplace, -⟩ := mem_nodesFrom.mp hn
    have hbelow : Precedes (place ++ []) (place ++ c.1 :: rest) := precedes_append_left .nil place
    rw [List.append_nil] at hbelow
    rw [hplace, List.append_assoc]
    exact hbelow

/-- **The walk follows the order of places.** -/
theorem pairwise_precedes_metadataNodes {m : Metadata} (h : (Value.metadata m).IsSorted) :
    (metadataNodes m).Pairwise fun a b => Precedes a.place b.place := by
  rw [metadataNodes_eq]
  exact pairwise_precedes_flatMap h [] fun c hc =>
    pairwise_precedes_nodesFrom (h.of_mem_children hc) [c.1]

/-! ### Levels -/

/-- A walk down meets every level: the first node beyond one of them is on the next. -/
theorem level_of_find?_nodesFrom {limit : ℕ} {v : Value} {place : Place}
    (hplace : place.length ≤ limit + 1) {n : MetadataNode}
    (h : (nodesFrom place v).find? (fun n => limit < n.level) = some n) :
    n.level = limit + 1 := by
  induction v using Value.induction_children generalizing place with
  | h v ih =>
    rw [nodesFrom_eq, List.find?_cons, MetadataNode.level] at h
    split at h
    · next hdeep =>
      obtain rfl := Option.some.inj h
      exact Nat.le_antisymm hplace (of_decide_eq_true hdeep)
    · next hdeep =>
      rw [List.find?_flatMap] at h
      obtain ⟨c, hc, hfirst⟩ := List.exists_of_findSome?_eq_some h
      have hlevel : ¬ limit < place.length := of_decide_eq_false hdeep
      exact ih c hc (by rw [List.length_append, List.length_singleton]; omega) hfirst

theorem level_of_find?_metadataNodes {limit : ℕ} {m : Metadata} {n : MetadataNode}
    (h : (metadataNodes m).find? (fun n => limit < n.level) = some n) : n.level = limit + 1 := by
  rw [metadataNodes_eq, List.find?_flatMap] at h
  obtain ⟨c, -, hfirst⟩ := List.exists_of_findSome?_eq_some h
  exact level_of_find?_nodesFrom (Nat.le_add_left 1 limit) hfirst

/-! ### Leaves and their places -/

/-- **A leaf of metadata at its place.** -/
structure PlacedLeaf where
  place : Place
  text : String
deriving DecidableEq

/-- The leaf that a node is, if it is one. -/
def MetadataNode.leaf? (n : MetadataNode) : Option PlacedLeaf :=
  (scalarText? n.value).map fun text => ⟨n.place, text⟩

/-- **The leaves of metadata in the order of their places.** -/
def placedLeaves (m : Metadata) : List PlacedLeaf := (metadataNodes m).filterMap MetadataNode.leaf?

/-- The leaf without the positions of its place. -/
def PlacedLeaf.erased (leaf : PlacedLeaf) : MetadataLeaf :=
  ⟨leaf.place.map PlaceStep.erased, leaf.text⟩

theorem mem_placedLeaves {m : Metadata} {leaf : PlacedLeaf} :
    leaf ∈ placedLeaves m ↔
      ∃ v, StandsAt leaf.place (Value.metadata m) v ∧ scalarText? v = some leaf.text := by
  rw [placedLeaves, List.mem_filterMap]
  constructor
  · rintro ⟨n, hn, hleaf⟩
    obtain ⟨text, htext, rfl⟩ := Option.map_eq_some_iff.mp hleaf
    exact ⟨n.value, (mem_metadataNodes.mp hn).2, htext⟩
  · rintro ⟨v, hat, htext⟩
    refine ⟨⟨leaf.place, v⟩, mem_metadataNodes.mpr ⟨fun hroot => ?_, hat⟩, ?_⟩
    · have hroot : leaf.place = [] := hroot
      rw [hroot] at hat
      cases hat
      exact nomatch htext
    · rw [MetadataNode.leaf?, htext]
      rfl

theorem pairwise_precedes_placedLeaves {m : Metadata} (h : (Value.metadata m).IsSorted) :
    (placedLeaves m).Pairwise fun a b => Precedes a.place b.place := by
  refine (pairwise_precedes_metadataNodes h).filterMap _ fun n n' hprecedes a ha b hb => ?_
  obtain ⟨_, -, rfl⟩ := Option.map_eq_some_iff.mp ha
  obtain ⟨_, -, rfl⟩ := Option.map_eq_some_iff.mp hb
  exact hprecedes

/-- The leaves below a value are its own, if it has a text, and those below its children. -/
theorem leavesBelow_eq (way : List MetadataStep) (v : Value) :
    leavesBelow way v = ((scalarText? v).map (⟨way, ·⟩)).toList ++
      v.children.flatMap fun c => leavesBelow (way ++ [c.1.erased]) c.2 := by
  cases v with
  | null => rfl
  | bool b => rfl
  | number n => rfl
  | string s => rfl
  | array items =>
    have hitems : items.flatMap (leavesBelow (way ++ [.item])) =
        items.zipIdx.flatMap fun c => leavesBelow (way ++ [.item]) c.1 := by
      rw [← List.flatMap_map Prod.fst, List.zipIdx_map_fst]
    rw [leavesBelow, leavesBelowItems_eq, hitems, Value.children, List.flatMap_map]
    rfl
  | object members =>
    rw [leavesBelow, leavesBelowMembers_eq, Value.children, List.flatMap_map]
    rfl

theorem leavesBelow_eq_map_erased (place : Place) (v : Value) :
    leavesBelow (place.map PlaceStep.erased) v =
      ((nodesFrom place v).filterMap MetadataNode.leaf?).map PlacedLeaf.erased := by
  induction v using Value.induction_children generalizing place with
  | h v ih =>
    have hinside : (v.children.flatMap fun c =>
        leavesBelow (place.map PlaceStep.erased ++ [c.1.erased]) c.2) =
          ((v.children.flatMap fun c => nodesFrom (place ++ [c.1]) c.2).filterMap
            MetadataNode.leaf?).map PlacedLeaf.erased := by
      rw [List.filterMap_flatMap, List.map_flatMap]
      refine List.flatMap_congr fun c hc => ?_
      rw [← ih c hc, List.map_append, List.map_singleton]
    rw [leavesBelow_eq, hinside, nodesFrom_eq, List.filterMap_cons, MetadataNode.leaf?]
    cases scalarText? v with
    | none => rfl
    | some text => rfl

/-- The leaves are those of their places, in the same order. -/
theorem metadataLeaves_eq (m : Metadata) :
    metadataLeaves m = (placedLeaves m).map PlacedLeaf.erased := by
  have hroot := leavesBelow_eq_map_erased [] (Value.metadata m)
  rw [nodesFrom_eq, List.filterMap_cons] at hroot
  rw [placedLeaves, metadataNodes_eq]
  exact hroot

end WalletApi
