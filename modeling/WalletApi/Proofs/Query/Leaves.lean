import WalletApi.Proofs.Results
import WalletApi.Query

/-!
# The leaves of metadata

Metadata is a tree. A step leads from an object to the value of one of its keys, or from an array to
one of its items, and the way to a value is the steps to it from the root, where it is not told
which item an array step takes. The leaves are the truth values, numbers and texts of the tree, each
with the way to it (`WalletApi.MetadataLeaf`); a `null` is none.

The parameters that metadata makes are its leaves, one by one and in their order, where the name of
a parameter spells the way to the leaf: this is `WalletApi.TransactionsQuery.parameters_eq_ok`. That
the list of leaves misses none and invents none is `WalletApi.mem_metadataLeaves`, which compares it
with the relation `WalletApi.LeadsTo`.
-/

namespace WalletApi

open Json (Value Metadata)

/-! ### Ways -/

/-- A step from a container to a value in it. -/
inductive MetadataStep
  | key (k : String)
  | item
deriving DecidableEq

/-- The name of where a step leads, from the name of where it begins. -/
def MetadataStep.extend (name : String) : MetadataStep → String
  | .key k => stepInto name k
  | .item => stepItems name

/-- The name that spells a way. -/
def wayName (way : List MetadataStep) : String := way.foldl MetadataStep.extend "metadata"

theorem wayName_concat (way : List MetadataStep) (s : MetadataStep) :
    wayName (way ++ [s]) = s.extend (wayName way) := by
  rw [wayName, List.foldl_append]
  rfl

/-- **A way leads from a value to a value inside.** -/
inductive LeadsTo : List MetadataStep → Value → Value → Prop
  | here (v : Value) : LeadsTo [] v v
  | key {k : String} {w v : Value} {members : List (String × Value)} {way : List MetadataStep} :
      (k, w) ∈ members → LeadsTo way w v → LeadsTo (.key k :: way) (.object members) v
  | item {w v : Value} {items : List Value} {way : List MetadataStep} :
      w ∈ items → LeadsTo way w v → LeadsTo (.item :: way) (.array items) v

/-! ### Leaves -/

/-- The text of a truth value, a number or a text. -/
def scalarText? : Value → Option String
  | .bool b => some (if b then "true" else "false")
  | .number n => some n.text
  | .string s => some s
  | _ => none

/-- **A leaf of metadata**: the way to it, and its text. -/
structure MetadataLeaf where
  way : List MetadataStep
  text : String
deriving DecidableEq

/-- The parameter that a leaf makes. -/
def MetadataLeaf.parameter (leaf : MetadataLeaf) : Parameter := (wayName leaf.way, leaf.text)

mutual
/-- The leaves of a value that stands at the end of a way. -/
def leavesBelow (way : List MetadataStep) : Value → List MetadataLeaf
  | .null => []
  | .bool b => [⟨way, if b then "true" else "false"⟩]
  | .number n => [⟨way, n.text⟩]
  | .string s => [⟨way, s⟩]
  | .array items => leavesBelowItems (way ++ [.item]) items
  | .object members => leavesBelowMembers way members

/-- The leaves of items that stand at the end of a way. -/
def leavesBelowItems (way : List MetadataStep) : List Value → List MetadataLeaf
  | [] => []
  | v :: rest => leavesBelow way v ++ leavesBelowItems way rest

/-- The leaves of the members of an object that stands at the end of a way. -/
def leavesBelowMembers (way : List MetadataStep) : List (String × Value) → List MetadataLeaf
  | [] => []
  | (k, v) :: rest => leavesBelow (way ++ [.key k]) v ++ leavesBelowMembers way rest
end

/-- The leaves of metadata, in order. -/
def metadataLeaves (m : Metadata) : List MetadataLeaf := leavesBelowMembers [] m.entries

theorem leavesBelowItems_eq (way : List MetadataStep) (items : List Value) :
    leavesBelowItems way items = items.flatMap (leavesBelow way) := by
  induction items with
  | nil => rfl
  | cons v rest ih => rw [leavesBelowItems, ih, List.flatMap_cons]

theorem leavesBelowMembers_eq (way : List MetadataStep) (members : List (String × Value)) :
    leavesBelowMembers way members =
      members.flatMap fun m => leavesBelow (way ++ [.key m.1]) m.2 := by
  induction members with
  | nil => rfl
  | cons m rest ih => rw [leavesBelowMembers, ih, List.flatMap_cons]

/-- What a way leads to, with a text of its own, is a leaf. -/
theorem mem_leavesBelow_of_leadsTo {way rest : List MetadataStep} {v w : Value} {text : String}
    (h : LeadsTo rest v w) (htext : scalarText? w = some text) :
    ⟨way ++ rest, text⟩ ∈ leavesBelow way v := by
  induction h generalizing way with
  | here v =>
    rw [List.append_nil]
    cases v with
    | null => exact nomatch htext
    | bool b => exact List.mem_singleton.mpr (congrArg _ (Option.some.inj htext).symm)
    | number n => exact List.mem_singleton.mpr (congrArg _ (Option.some.inj htext).symm)
    | string s => exact List.mem_singleton.mpr (congrArg _ (Option.some.inj htext).symm)
    | array items => exact nomatch htext
    | object members => exact nomatch htext
  | key hmem _ ih =>
    rw [leavesBelow, leavesBelowMembers_eq, List.append_cons way]
    exact List.mem_flatMap.mpr ⟨_, hmem, ih htext⟩
  | @item _ _ _ rest hmem _ ih =>
    rw [leavesBelow, leavesBelowItems_eq, List.append_cons way .item rest]
    exact List.mem_flatMap.mpr ⟨_, hmem, ih htext⟩

/-- A way leads to every leaf. -/
theorem exists_leadsTo_of_mem_leavesBelow {way : List MetadataStep} {v : Value}
    {leaf : MetadataLeaf} (h : leaf ∈ leavesBelow way v) :
    ∃ rest w, leaf.way = way ++ rest ∧ LeadsTo rest v w ∧ scalarText? w = some leaf.text := by
  match v with
  | .null => exact absurd h List.not_mem_nil
  | .bool b =>
    obtain rfl := List.mem_singleton.mp h
    exact ⟨[], _, (List.append_nil way).symm, .here _, rfl⟩
  | .number n =>
    obtain rfl := List.mem_singleton.mp h
    exact ⟨[], _, (List.append_nil way).symm, .here _, rfl⟩
  | .string s =>
    obtain rfl := List.mem_singleton.mp h
    exact ⟨[], _, (List.append_nil way).symm, .here _, rfl⟩
  | .array items =>
    rw [leavesBelow, leavesBelowItems_eq] at h
    obtain ⟨u, hu, hleaf⟩ := List.mem_flatMap.mp h
    have := List.sizeOf_lt_of_mem hu
    obtain ⟨rest, w, hway, hleads, htext⟩ := exists_leadsTo_of_mem_leavesBelow hleaf
    exact ⟨_, w, by rw [hway, List.append_assoc]; rfl, .item hu hleads, htext⟩
  | .object members =>
    rw [leavesBelow, leavesBelowMembers_eq] at h
    obtain ⟨⟨k, u⟩, hu, hleaf⟩ := List.mem_flatMap.mp h
    have := List.sizeOf_lt_of_mem hu
    obtain ⟨rest, w, hway, hleads, htext⟩ := exists_leadsTo_of_mem_leavesBelow hleaf
    exact ⟨_, w, by rw [hway, List.append_assoc]; rfl, .key hu hleads, htext⟩
termination_by sizeOf v
decreasing_by
  · simp
    omega
  · simp at this ⊢
    omega

/-- **The leaves are what the ways lead to.** -/
theorem mem_metadataLeaves {m : Metadata} {leaf : MetadataLeaf} :
    leaf ∈ metadataLeaves m ↔
      ∃ v, LeadsTo leaf.way (Value.metadata m) v ∧ scalarText? v = some leaf.text := by
  constructor
  · intro h
    have hleaf : leaf ∈ leavesBelow [] (Value.metadata m) := h
    obtain ⟨rest, v, hway, hleads, htext⟩ := exists_leadsTo_of_mem_leavesBelow hleaf
    rw [List.nil_append] at hway
    exact ⟨v, hway ▸ hleads, htext⟩
  · rintro ⟨v, hleads, htext⟩
    show leaf ∈ leavesBelow [] (Value.metadata m)
    exact mem_leavesBelow_of_leadsTo hleads htext

/-! ### The parameters of leaves -/

mutual
/-- A value that does not nest too deeply makes its leaves into parameters. -/
theorem eq_of_leaves {maxDepth level : Nat} {way : List MetadataStep} :
    ∀ {v : Value} {ps : List Parameter}, leaves maxDepth level (wayName way) v = .ok ps →
      ps = (leavesBelow way v).map MetadataLeaf.parameter := by
  intro v ps h
  rw [leaves.eq_def] at h
  split at h
  · exact nomatch h
  · cases v with
    | null => exact (Except.ok.inj h).symm
    | bool b => exact (Except.ok.inj h).symm
    | number n => exact (Except.ok.inj h).symm
    | string s => exact (Except.ok.inj h).symm
    | array items =>
      have hitems : leavesOfItems maxDepth (level + 1) (wayName (way ++ [.item])) items = .ok ps :=
        (wayName_concat way .item).symm ▸ h
      exact eq_of_leavesOfItems hitems
    | object members => exact eq_of_leavesOfMembers h

theorem eq_of_leavesOfItems {maxDepth level : Nat} {way : List MetadataStep} :
    ∀ {items : List Value} {ps : List Parameter},
      leavesOfItems maxDepth level (wayName way) items = .ok ps →
        ps = (leavesBelowItems way items).map MetadataLeaf.parameter
  | [], _, h => (Except.ok.inj h).symm
  | v :: rest, ps, h => by
    obtain ⟨first, hfirst, h⟩ := bind_eq_ok.mp h
    obtain ⟨others, hothers, h⟩ := bind_eq_ok.mp h
    rw [leavesBelowItems, List.map_append, ← eq_of_leaves hfirst, ← eq_of_leavesOfItems hothers]
    exact (Except.ok.inj h).symm

theorem eq_of_leavesOfMembers {maxDepth level : Nat} {way : List MetadataStep} :
    ∀ {members : List (String × Value)} {ps : List Parameter},
      leavesOfMembers maxDepth level (wayName way) members = .ok ps →
        ps = (leavesBelowMembers way members).map MetadataLeaf.parameter
  | [], _, h => (Except.ok.inj h).symm
  | (k, v) :: rest, ps, h => by
    obtain ⟨first, hfirst, h⟩ := bind_eq_ok.mp h
    obtain ⟨others, hothers, h⟩ := bind_eq_ok.mp h
    have hkey : leaves maxDepth level (wayName (way ++ [.key k])) v = .ok first :=
      (wayName_concat way (.key k)).symm ▸ hfirst
    rw [leavesBelowMembers, List.map_append, ← eq_of_leaves hkey, ← eq_of_leavesOfMembers hothers]
    exact (Except.ok.inj h).symm
end

/-- **The parameters of a query** are those of its page, order and filter, and after them the leaves
of its metadata, each under the name that spells the way to it. -/
theorem TransactionsQuery.parameters_eq_ok {q : TransactionsQuery} {ps : List Parameter}
    (h : q.parameters = .ok ps) :
    ps = q.scalarParameters ++ (metadataLeaves q.metadata).map MetadataLeaf.parameter := by
  obtain ⟨ofMetadata, hleaves, rfl⟩ := map_eq_ok.mp h
  have hparameters : ofMetadata =
      (leavesBelowMembers [] q.metadata.entries).map MetadataLeaf.parameter :=
    eq_of_leavesOfMembers hleaves
  rw [hparameters]
  rfl

end WalletApi
