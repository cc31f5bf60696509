import Mathlib.Data.List.Perm.Basic
import Mathlib.Logic.Relation
import WalletApi.Proofs.Json.Containers

/-!
# Documents with their members in another order

One step of reordering permutes the members of one object, somewhere in a document
(`WalletApi.Json.Doc.Reorders`), and a rearrangement is any number of such steps
(`WalletApi.Json.Doc.Rearranges`). The one thing to know about a rearrangement is what it makes of
the document that it starts from:

* a document that holds no other ones stays as it is (`WalletApi.Json.Doc.Rearranges.eq_of_isLeaf`);
* an array keeps its items in their places, each rearranged;
* an object keeps its members, each with its key and a rearranged value, in any order.

Whoever reads the second of two members with one key reads another value once they change places, so
that all that follows is about documents in which no object has a key twice
(`WalletApi.Json.Doc.HasDistinctKeys`). `WalletApi.Json.Doc.Shuffles` says both at once, and its
inversions are what the readers are gone through with. There are two places where a reader looks at
the members of an object as a whole. Passing over them is settled here; sorting them into a map does
not depend on their order (`WalletApi.SortedMap.ofList_eq_of_perm`).
-/

namespace WalletApi.Json.Doc

/-! ### Reordering -/

/-- A document that holds no other ones. -/
def IsLeaf : Doc → Prop
  | .array _ _ => False
  | .object _ _ => False
  | _ => True

/-- **One step of reordering**: somewhere in a document, the members of an object change places. -/
inductive Reorders : Doc → Doc → Prop
  /-- The members of the object itself change places. -/
  | members {l m : List (Doc × Doc)} (h : l.Perm m) (close : Option Fault) :
    Reorders (.object l close) (.object m close)
  /-- There is a step inside one item of an array. -/
  | item {d e : Doc} (pre post : List Doc) (close : Option Fault) (h : Reorders d e) :
    Reorders (.array (pre ++ d :: post) close) (.array (pre ++ e :: post) close)
  /-- There is a step inside the value of one member of an object. -/
  | value {d e : Doc} (key : Doc) (pre post : List (Doc × Doc)) (close : Option Fault)
    (h : Reorders d e) :
    Reorders (.object (pre ++ (key, d) :: post) close) (.object (pre ++ (key, e) :: post) close)

/-- **A rearranged document**: any number of steps of reordering. -/
abbrev Rearranges : Doc → Doc → Prop := Relation.ReflTransGen Reorders

variable {d e : Doc} {l : List Doc} {ms : List (Doc × Doc)} {close : Option Fault}

/-- Two members with one key and related values. -/
def Alike (R : Doc → Doc → Prop) (m m' : Doc × Doc) : Prop := m'.1 = m.1 ∧ R m.2 m'.2

theorem Alike.refl (m : Doc × Doc) : Alike Rearranges m m := ⟨rfl, .refl⟩

theorem Alike.trans {l m n : Doc × Doc} (h : Alike Rearranges l m) (h' : Alike Rearranges m n) :
    Alike Rearranges l n :=
  ⟨h'.1.trans h.1, h.2.trans h'.2⟩

/-- An array keeps its items in their places. -/
theorem Rearranges.array_cases (h : Rearranges (.array l close) d) :
    ∃ items', d = .array items' close ∧ List.Forall₂ Rearranges l items' := by
  induction h with
  | refl => exact ⟨l, rfl, List.forall₂_same.mpr fun _ _ => .refl⟩
  | tail _ hstep ih =>
    obtain ⟨items', rfl, hitems⟩ := ih
    cases hstep with
    | item pre post _ hinside =>
      have hlast := forall₂_middle (R := Rearranges) (fun _ => .refl) pre post
        (Relation.ReflTransGen.single hinside)
      exact ⟨_, rfl, forall₂_trans (fun hab hbc => hab.trans hbc) hitems hlast⟩

/-- An object keeps its members, in any order. -/
theorem Rearranges.object_cases (h : Rearranges (.object ms close) d) :
    ∃ mid members', d = .object members' close ∧ List.Forall₂ (Alike Rearranges) ms mid ∧
      mid.Perm members' := by
  induction h with
  | refl =>
    exact ⟨ms, ms, rfl, List.forall₂_same.mpr fun m _ => .refl m, List.Perm.refl _⟩
  | tail _ hstep ih =>
    obtain ⟨mid, members', rfl, hmid, hperm⟩ := ih
    cases hstep with
    | members hnext => exact ⟨mid, _, rfl, hmid, hperm.trans hnext⟩
    | @value d e key pre post _ hinside =>
      have hmember : Alike Rearranges (key, d) (key, e) := ⟨rfl, .single hinside⟩
      have hlast := forall₂_middle Alike.refl pre post hmember
      -- The permutation comes first here, and its members are changed where they have come to.
      obtain ⟨mid', hmid', hperm'⟩ := List.perm_comp_forall₂ hperm hlast
      have hboth := forall₂_trans (fun hab hbc => hab.trans hbc) hmid hmid'
      exact ⟨mid', _, rfl, hboth, hperm'⟩

/-- Without members there is nothing to reorder. -/
theorem Rearranges.eq_of_isLeaf (h : Rearranges d e) (hd : d.IsLeaf) : e = d := by
  induction h with
  | refl => rfl
  | tail _ hstep ih =>
    subst ih
    cases hstep with
    | members => exact hd.elim
    | item => exact hd.elim
    | value => exact hd.elim

/-! ### Keys that stand once -/

/-- **No object of a document has a key twice.** -/
inductive HasDistinctKeys : Doc → Prop
  | leaf {d : Doc} (h : d.IsLeaf) : HasDistinctKeys d
  | array {items : List Doc} {close : Option Fault} (h : ∀ d ∈ items, HasDistinctKeys d) :
    HasDistinctKeys (.array items close)
  | object {members : List (Doc × Doc)} {close : Option Fault}
    (hkeys : (members.map Prod.fst).Nodup) (h : ∀ m ∈ members, HasDistinctKeys m.2) :
    HasDistinctKeys (.object members close)

theorem HasDistinctKeys.items (h : HasDistinctKeys (.array l close)) :
    ∀ d ∈ l, d.HasDistinctKeys := by
  cases h with
  | leaf h => exact h.elim
  | array h => exact h

theorem HasDistinctKeys.keys (h : HasDistinctKeys (.object ms close)) :
    (ms.map Prod.fst).Nodup := by
  cases h with
  | leaf h => exact h.elim
  | object hkeys h => exact hkeys

theorem HasDistinctKeys.values (h : HasDistinctKeys (.object ms close)) :
    ∀ m ∈ ms, m.2.HasDistinctKeys := by
  cases h with
  | leaf h => exact h.elim
  | object hkeys h => exact h

/-- A document and a rearrangement of it, where no object has a key twice. -/
structure Shuffles (d d' : Doc) : Prop where
  distinct : d.HasDistinctKeys
  rearranges : Rearranges d d'

theorem Shuffles.eq_of_isLeaf (h : Shuffles d e) (hd : d.IsLeaf) : e = d :=
  h.rearranges.eq_of_isLeaf hd

theorem Shuffles.array_cases (h : Shuffles (.array l close) d) :
    ∃ items', d = .array items' close ∧ List.Forall₂ Shuffles l items' := by
  obtain ⟨items', rfl, hitems⟩ := h.rearranges.array_cases
  have hboth := (List.forall₂_and_left l items').mpr ⟨h.distinct.items, hitems⟩
  exact ⟨items', rfl, hboth.imp fun _ _ h => ⟨h.1, h.2⟩⟩

theorem Shuffles.object_cases (h : Shuffles (.object ms close) d) :
    ∃ mid members', d = .object members' close ∧ (ms.map Prod.fst).Nodup ∧
      List.Forall₂ (Alike Shuffles) ms mid ∧ mid.Perm members' := by
  obtain ⟨mid, members', rfl, hmid, hperm⟩ := h.rearranges.object_cases
  have hboth := (List.forall₂_and_left ms mid).mpr ⟨h.distinct.values, hmid⟩
  exact ⟨mid, members', rfl, h.distinct.keys, hboth.imp fun _ _ h => ⟨h.2.1, h.1, h.2.2⟩, hperm⟩

/-! ### Passing over a value -/

/-- **What can be passed over can be passed over in any order.** -/
theorem Reorders.skipFault_eq_none (h : Reorders d e) (hd : d.skipFault = none) :
    e.skipFault = none := by
  induction h with
  | members hperm close =>
    rw [skipFault, skipMembers_eq_none_iff] at hd ⊢
    exact ⟨fun m hm => hd.1 m (hperm.mem_iff.mpr hm), hd.2⟩
  | item pre post close _ ih =>
    rw [skipFault, skipItems_eq_none_iff, List.forall_mem_append, List.forall_mem_cons] at hd ⊢
    obtain ⟨⟨hpre, hitem, hpost⟩, hclose⟩ := hd
    exact ⟨⟨hpre, ih hitem, hpost⟩, hclose⟩
  | value key pre post close _ ih =>
    rw [skipFault, skipMembers_eq_none_iff, List.forall_mem_append, List.forall_mem_cons] at hd ⊢
    obtain ⟨⟨hpre, hmember, hpost⟩, hclose⟩ := hd
    rw [skipMembers_singleton_eq_none_iff] at hmember
    refine ⟨⟨hpre, ?_, hpost⟩, hclose⟩
    exact skipMembers_singleton_eq_none_iff.mpr ⟨hmember.1, ih hmember.2⟩

theorem Rearranges.skipFault_eq_none (h : Rearranges d e) (hd : d.skipFault = none) :
    e.skipFault = none := by
  induction h with
  | refl => exact hd
  | tail _ hstep ih => exact hstep.skipFault_eq_none ih

end WalletApi.Json.Doc
