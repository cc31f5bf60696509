import Mathlib.Data.List.Pairwise
import WalletApi.Proofs.Json.Records

/-!
# The members of an object, one by one

The fields of a record go through the members of an object twice: first in order, to check each of
them, and then field by field, to find the values. The one thing to know about the first pass is
that its order does not matter for success: the check passes exactly when each member is accepted on
its own and no field is met twice (`WalletApi.Json.Fields.check_eq_ok_iff`). For failure the order
does matter, as it decides which of the two is told (`WalletApi.Json.Fields.check_eq_error`). Once
no field is met twice, the second pass depends only on which members there are, since a field finds
its member wherever that stands (`WalletApi.Json.Fields.find_eq_some_iff`).
-/

namespace WalletApi.Json.Fields

variable {α β : Type} {table : List (List String × Reader Unit)} {unknown : Unknown} {depth : ℕ}

/-! ### One member -/

/-- The entry of a table that knows a member by its key. -/
def fieldOf (table : List (List String × Reader Unit)) (m : Doc × Doc) :
    Option (List String × Reader Unit) :=
  match m.1 with
  | .string s => table.find? fun entry => entry.1.contains s
  | _ => none

/-- The field that a member is for, under the name that is told in messages. -/
def metBy (table : List (List String × Reader Unit)) (m : Doc × Doc) : Option String :=
  (fieldOf table m).map fun entry => entry.1.headD ""

/-- What is asked of a member on its own: its key is a string, and its value is what its field asks
for, or what is asked of unknown members. -/
def accept (table : List (List String × Reader Unit)) (unknown : Unknown) (depth : ℕ)
    (m : Doc × Doc) : Except ReadError Unit := do
  let _ ← m.1.name
  match fieldOf table m with
  | none => unknown depth m.2
  | some entry => entry.2 depth m.2

/-! ### The check -/

variable {seen : List String} {m : Doc × Doc} {members : List (Doc × Doc)} {p : String}

/-- A member that no field knows is only looked at itself. -/
theorem check_cons_of_unmet (hm : metBy table m = none) :
    check table unknown depth seen (m :: members) =
      accept table unknown depth m >>= fun _ => check table unknown depth seen members := by
  obtain ⟨k, d⟩ := m
  cases k with
  | string s =>
    have hfind : table.find? (fun entry => entry.1.contains s) = none :=
      Option.map_eq_none_iff.mp hm
    rw [check, accept]
    simp only [Doc.name, ok_bind, fieldOf, hfind]
  | _ => rfl

/-- A member of a field is refused where the field was met, and else looked at before the others. -/
theorem check_cons_of_met (hm : metBy table m = some p) :
    check table unknown depth seen (m :: members) =
      if p ∈ seen then .error (.mismatch (.duplicateField p))
      else accept table unknown depth m >>= fun _ =>
        check table unknown depth (p :: seen) members := by
  obtain ⟨k, d⟩ := m
  cases k with
  | string s =>
    obtain ⟨⟨names, r⟩, hfind, rfl⟩ := Option.map_eq_some_iff.mp hm
    have hfind' : table.find? (fun entry => entry.1.contains s) = some (names, r) := hfind
    rw [check, accept]
    simp only [Doc.name, ok_bind, fieldOf, hfind', List.contains_iff_mem]
  | _ => cases hm

/-- A member is accepted when its key is a string and its value is what is asked for. -/
theorem accept_eq_ok_iff :
    accept table unknown depth m = .ok () ↔ (∃ s, m.1 = .string s) ∧
      (∀ entry, fieldOf table m = some entry → entry.2 depth m.2 = .ok ()) ∧
      (fieldOf table m = none → unknown depth m.2 = .ok ()) := by
  obtain ⟨k, d⟩ := m
  cases k with
  | string s =>
    rw [accept]
    simp only [Doc.name, ok_bind]
    cases h : fieldOf table (.string s, d) with
    | none => simp
    | some entry => simp
  | _ =>
    refine ⟨fun h => ?_, fun h => ?_⟩
    · cases h
    · cases h.1.choose_spec

/-- **The check passes** exactly when each member is accepted and no field is met twice. -/
theorem check_eq_ok_iff :
    check table unknown depth seen members = .ok () ↔
      (∀ m ∈ members, accept table unknown depth m = .ok ()) ∧
        (members.filterMap (metBy table)).Nodup ∧
        ∀ p ∈ members.filterMap (metBy table), p ∉ seen := by
  induction members generalizing seen with
  | nil => simp [check]
  | cons m members ih =>
    rw [List.forall_mem_cons, List.filterMap_cons]
    cases hm : metBy table m with
    | none =>
      rw [check_cons_of_unmet hm, bind_eq_ok]
      simp only [ih]
      constructor
      · rintro ⟨⟨⟩, haccept, hrest, hnodup, hseen⟩
        exact ⟨⟨haccept, hrest⟩, hnodup, hseen⟩
      · rintro ⟨⟨haccept, hrest⟩, hnodup, hseen⟩
        exact ⟨(), haccept, hrest, hnodup, hseen⟩
    | some p =>
      rw [check_cons_of_met hm, List.nodup_cons, List.forall_mem_cons]
      split
      · next hmem => simp [hmem]
      · next hmem =>
        rw [bind_eq_ok]
        simp only [ih]
        constructor
        · rintro ⟨⟨⟩, haccept, hrest, hnodup, hseen⟩
          refine ⟨⟨haccept, hrest⟩, ⟨fun h => hseen p h List.mem_cons_self, hnodup⟩, hmem, ?_⟩
          exact fun q hq h => hseen q hq (List.mem_cons_of_mem p h)
        · rintro ⟨⟨haccept, hrest⟩, ⟨hfresh, hnodup⟩, -, hseen⟩
          refine ⟨(), haccept, hrest, hnodup, fun q hq h => ?_⟩
          rcases List.mem_cons.mp h with rfl | h
          · exact hfresh hq
          · exact hseen q hq h

/-- **What the check refuses**: a field that is met twice, or a member that is not accepted. -/
theorem check_eq_error {e : ReadError} (h : check table unknown depth seen members = .error e) :
    (∃ p, e = .mismatch (.duplicateField p)) ∨
      ∃ m ∈ members, accept table unknown depth m = .error e := by
  induction members generalizing seen with
  | nil => cases h
  | cons m members ih =>
    have hlater : ∀ {seen}, (accept table unknown depth m >>= fun _ =>
        check table unknown depth seen members) = .error e →
        (∃ p, e = .mismatch (.duplicateField p)) ∨
          ∃ m' ∈ m :: members, accept table unknown depth m' = .error e := by
      intro seen h
      rcases bind_eq_error.mp h with h | ⟨-, -, h⟩
      · exact .inr ⟨m, List.mem_cons_self, h⟩
      · refine (ih h).imp_right ?_
        rintro ⟨m', hm', h⟩
        exact ⟨m', List.mem_cons_of_mem m hm', h⟩
    cases hm : metBy table m with
    | none => exact hlater (check_cons_of_unmet hm ▸ h)
    | some p =>
      rw [check_cons_of_met hm] at h
      split at h
      · exact .inl ⟨p, (Except.error.inj h).symm⟩
      · exact hlater h

/-- Members that pass are checked before the others, and their fields are met from there on. -/
theorem check_append_of_ok {rest : List (Doc × Doc)}
    (h : check table unknown depth seen members = .ok ()) :
    check table unknown depth seen (members ++ rest) =
      check table unknown depth ((members.filterMap (metBy table)).reverse ++ seen) rest := by
  induction members generalizing seen with
  | nil => rfl
  | cons m members ih =>
    rw [List.cons_append, List.filterMap_cons]
    cases hm : metBy table m with
    | none =>
      rw [check_cons_of_unmet hm] at h ⊢
      obtain ⟨⟨⟩, haccept, hrest⟩ := bind_eq_ok.mp h
      rw [haccept, ok_bind, ih hrest]
    | some p =>
      rw [check_cons_of_met hm] at h ⊢
      split at h
      · cases h
      · next hfresh =>
        obtain ⟨⟨⟩, haccept, hrest⟩ := bind_eq_ok.mp h
        rw [if_neg hfresh, haccept, ok_bind, ih hrest, List.reverse_cons, List.append_assoc,
          List.singleton_append]

/-! ### What a field finds -/

/-- The member that a field with the given names takes its value from. -/
def find (names : List String) (members : List (Doc × Doc)) : Option (String × Doc) :=
  (Doc.named members).find? fun m => names.contains m.1

theorem mem_named {s : String} {d : Doc} :
    (s, d) ∈ Doc.named members ↔ (.string s, d) ∈ members := by
  rw [Doc.named, List.mem_filterMap]
  constructor
  · rintro ⟨⟨k, d'⟩, hm, h⟩
    cases k with
    | string t =>
      obtain ⟨rfl, rfl⟩ := Prod.mk.inj (Option.some.inj h)
      exact hm
    | _ => cases h
  · intro hm
    exact ⟨_, hm, rfl⟩

theorem of_fieldOf_eq_some {s : String} {d : Doc} {entry : List String × Reader Unit}
    (h : fieldOf table (.string s, d) = some entry) : entry ∈ table ∧ s ∈ entry.1 := by
  have hfind : table.find? (fun entry => entry.1.contains s) = some entry := h
  have hcontains := List.find?_some hfind
  exact ⟨List.mem_of_find?_eq_some hfind, List.contains_iff_mem.mp hcontains⟩

theorem of_find_eq_some {names : List String} {s : String} {d : Doc}
    (h : find names members = some (s, d)) : (.string s, d) ∈ members ∧ s ∈ names := by
  have hfind : (Doc.named members).find? (fun m => names.contains m.1) = some (s, d) := h
  have hcontains := List.find?_some hfind
  exact ⟨mem_named.mp (List.mem_of_find?_eq_some hfind), List.contains_iff_mem.mp hcontains⟩

/-- If no two fields share a name, each member is known by the field that has its name. -/
theorem fieldOf_eq_some_iff (hnodup : (table.flatMap Prod.fst).Nodup)
    {entry : List String × Reader Unit} (hentry : entry ∈ table) {s : String} {d : Doc} :
    fieldOf table (.string s, d) = some entry ↔ s ∈ entry.1 := by
  refine ⟨fun h => (of_fieldOf_eq_some h).2, fun hs => ?_⟩
  cases h : fieldOf table (.string s, d) with
  | none =>
    have hnone := List.find?_eq_none.mp h entry hentry
    exact absurd (List.contains_iff_mem.mpr hs) hnone
  | some other =>
    obtain ⟨hother, hs'⟩ := of_fieldOf_eq_some h
    by_contra hne
    have : Std.Symm (Function.onFun List.Disjoint fun entry : List String × Reader Unit =>
        entry.1) := ⟨fun _ _ h _ ha hb => h hb ha⟩
    have hapart := (List.nodup_flatMap.mp hnodup).2.forall hother hentry
      fun h => hne (congrArg some h)
    exact hapart hs' hs

/-- A member with a name of a field is met by that field. -/
theorem metBy_eq_some (hnodup : (table.flatMap Prod.fst).Nodup)
    {entry : List String × Reader Unit} (hentry : entry ∈ table) {s : String} (hs : s ∈ entry.1)
    (d : Doc) : metBy table (.string s, d) = some (entry.1.headD "") := by
  rw [metBy, (fieldOf_eq_some_iff hnodup hentry).mpr hs]
  rfl

theorem accept_of_read (htable : (table.flatMap Prod.fst).Nodup)
    {entry : List String × Reader Unit} (hentry : entry ∈ table) {s : String} {d : Doc}
    (hs : s ∈ entry.1) (hread : entry.2 depth d = .ok ()) :
    accept table unknown depth (.string s, d) = .ok () := by
  rw [accept]
  simp only [Doc.name, ok_bind, (fieldOf_eq_some_iff htable hentry).mpr hs, hread]

theorem accept_of_unknown {s : String} {d : Doc} (hentry : fieldOf table (.string s, d) = none)
    (hunknown : unknown depth d = .ok ()) : accept table unknown depth (.string s, d) = .ok () := by
  rw [accept]
  simp only [Doc.name, ok_bind, hentry, hunknown]

theorem eq_of_metBy (hnodup : (members.filterMap (metBy table)).Nodup) {m m' : Doc × Doc}
    (hm : m ∈ members) (hm' : m' ∈ members) (hp : metBy table m = some p)
    (hp' : metBy table m' = some p) : m = m' := by
  by_contra hne
  have hpairs := List.pairwise_filterMap.mp hnodup
  have : Std.Symm fun m m' => ∀ b, metBy table m = some b → ∀ b', metBy table m' = some b' →
      b ≠ b' := ⟨fun _ _ h b hb b' hb' hbb' => h b' hb' b hb hbb'.symm⟩
  exact hpairs.forall hm hm' hne p hp p hp' rfl

/-- **A field that is met once finds its member**, wherever it stands. -/
theorem find_eq_some_iff (htable : (table.flatMap Prod.fst).Nodup)
    (hnodup : (members.filterMap (metBy table)).Nodup) {entry : List String × Reader Unit}
    (hentry : entry ∈ table) {s : String} {d : Doc} :
    find entry.1 members = some (s, d) ↔ (.string s, d) ∈ members ∧ s ∈ entry.1 := by
  refine ⟨of_find_eq_some, ?_⟩
  rintro ⟨hm, hs⟩
  cases h : find entry.1 members with
  | none =>
    have hnone := List.find?_eq_none.mp h _ (mem_named.mpr hm)
    exact absurd (List.contains_iff_mem.mpr hs) hnone
  | some m =>
    obtain ⟨t, e⟩ := m
    obtain ⟨hm', ht⟩ := of_find_eq_some h
    have hsame := eq_of_metBy hnodup hm' hm (metBy_eq_some htable hentry ht e)
      (metBy_eq_some htable hentry hs d)
    obtain ⟨heq, rfl⟩ := Prod.mk.inj hsame
    obtain rfl := Doc.string.inj heq
    rfl

end WalletApi.Json.Fields
