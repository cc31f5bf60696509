import WalletApi.Proofs.Json.Revising

/-!
# Fields that stand twice

A field that two members are for is refused, under whichever of its names they write it. Which error
is told is a matter of order, since the members are gone through one by one: a value in front of the
second member that its own field refuses is met first. The one thing to know about an object whose
members are all JSON values is therefore who can be to blame when a record is not read from it
(`WalletApi.Json.Fields.Blames`): the shape of the object, or a field that refuses the value of one
of its members (`WalletApi.Json.Fields.recordWith_eq_error`). Where nothing is wrong but that a
readable member was added to an object that is read as a record, the error names the field that now
stands twice (`WalletApi.Json.Fields.recordWith_eq_duplicateField`).
-/

namespace WalletApi.Json

variable {α β : Type}

namespace Reader

variable {r : Reader α} {depth : ℕ} {d : Doc} {v : Value} {e : ReadError}

/-! ### Readers that refuse shapes -/

/-- **A reader refuses JSON values by their shape**: its errors are never ones of the text. -/
structure RefusesShapes (r : Reader α) : Prop where
  mismatch : ∀ {depth : ℕ} {d : Doc} {v : Value} {e : ReadError}, value depth d = .ok v →
    r depth d = .error e → ∃ m, e = .mismatch m

theorem mismatch_of_refuse (expected : String) (hv : value depth d = .ok v)
    (h : (refuse expected d : Except ReadError α) = .error e) : ∃ m, e = .mismatch m := by
  cases d with
  | defect opening read skip => cases hv
  | _ => exact ⟨_, (Except.error.inj h).symm⟩

theorem RefusesShapes.map (hr : r.RefusesShapes) (f : α → β) :
    RefusesShapes fun depth d => (r depth d).map f := by
  refine ⟨fun {depth d _ _} hv h => ?_⟩
  cases hread : r depth d with
  | error e' =>
    rw [hread] at h
    obtain rfl := Except.error.inj h
    exact hr.mismatch hv hread
  | ok a =>
    rw [hread] at h
    cases h

theorem refusesShapes_string : Reader.string.RefusesShapes := by
  refine ⟨fun {_ d _ _} hv h => ?_⟩
  cases d with
  | string s => cases h
  | _ => exact mismatch_of_refuse "a string" hv h

theorem refusesShapes_integer (low high : ℤ) (range : String) :
    (Reader.integer low high range).RefusesShapes := by
  refine ⟨fun {_ d _ _} hv h => ?_⟩
  cases d with
  | number n =>
    cases n with
    | integer n =>
      rw [integer] at h
      split at h
      · cases h
      · exact ⟨_, (Except.error.inj h).symm⟩
    | float x => exact mismatch_of_refuse range hv h
  | _ => exact mismatch_of_refuse range hv h

theorem refusesShapes_u32 : Reader.u32.RefusesShapes := (refusesShapes_integer _ _ _).map _

theorem refusesShapes_u64 : Reader.u64.RefusesShapes := (refusesShapes_integer _ _ _).map _

theorem refusesShapes_i64 : Reader.i64.RefusesShapes := refusesShapes_integer _ _ _

theorem refusesShapes_parsed (parse : String → Except String α) (expected : String) :
    (Reader.parsed parse expected).RefusesShapes := by
  refine ⟨fun {_ d _ _} hv h => ?_⟩
  cases d with
  | string s =>
    rw [parsed] at h
    split at h
    · cases h
    · exact ⟨_, (Except.error.inj h).symm⟩
  | _ => exact mismatch_of_refuse expected hv h

theorem RefusesShapes.optional (hr : r.RefusesShapes) : (Reader.optional r).RefusesShapes := by
  refine ⟨fun {depth d _ _} hv h => ?_⟩
  cases d with
  | null => cases h
  | defect opening read skip => cases hv
  | _ => exact (hr.map some).mismatch hv h

theorem RefusesShapes.list (hr : r.RefusesShapes) : (Reader.list r).RefusesShapes := by
  refine ⟨fun {depth d _ _} hv h => ?_⟩
  cases d with
  | array l close =>
    rw [value_array_eq] at hv
    obtain ⟨vs, hvs, rfl⟩ := map_eq_ok.mp hv
    obtain ⟨rfl, inside, henter, hvs⟩ := list_array_eq_ok_iff.mp hvs
    rw [Reader.list, henter, ok_bind] at h
    rcases bind_eq_error.mp h with h | ⟨as, -, h⟩
    · obtain ⟨d, hd, h⟩ := readItems_eq_error h
      obtain ⟨w, -, hw⟩ := exists_of_forall₂ (readItems_eq_ok_iff.mp hvs) hd
      exact hr.mismatch hw h
    · cases h
  | _ => exact mismatch_of_refuse "a sequence" hv h

theorem RefusesShapes.sortedMap (hr : r.RefusesShapes) : (Reader.map r).RefusesShapes := by
  refine ⟨fun {depth d _ _} hv h => ?_⟩
  cases d with
  | object ms close =>
    rw [value_object_eq] at hv
    obtain ⟨m, hm, rfl⟩ := map_eq_ok.mp hv
    obtain ⟨rfl, inside, es, henter, hes, rfl⟩ := map_object_eq_ok_iff.mp hm
    have hread := readMembers_eq_ok_iff.mp hes
    have hkeys : ∀ m ∈ ms, ∃ s, m.1 = .string s := by
      intro m hm
      obtain ⟨x, -, hx⟩ := exists_of_forall₂ hread hm
      exact ⟨x.1, hx.1⟩
    rw [Reader.map, henter, ok_bind] at h
    rcases bind_eq_error.mp h with h | ⟨es', -, h⟩
    · obtain ⟨m, hm, h⟩ := readMembers_eq_error hkeys h
      obtain ⟨x, -, hx⟩ := exists_of_forall₂ hread hm
      exact hr.mismatch hx.2 h
    · cases h
  | _ => exact mismatch_of_refuse "a map" hv h

theorem refusesShapes_metadata : Reader.metadata.RefusesShapes := by
  refine RefusesShapes.sortedMap ⟨fun hv h => ?_⟩
  rw [hv] at h
  cases h

end Reader

namespace Fields

variable {R : String → Doc → Doc → Prop} {table : List (List String × Reader Unit)}
  {unknown : Unknown} {depth : ℕ} {seen : List String} {m m' : Doc × Doc}
  {members : List (Doc × Doc)} {p : String} {e : ReadError}

/-! ### Who is to blame -/

/-- **Who is to blame for an error**: the shape of the object, or a field of the table that refuses
the value of one of its members. -/
def Blames (table : List (List String × Reader Unit)) (depth : ℕ) (members : List (Doc × Doc))
    (e : ReadError) : Prop :=
  (∃ m, e = .mismatch m) ∨
    ∃ entry ∈ table, ∃ s d, (.string s, d) ∈ members ∧ s ∈ entry.1 ∧ entry.2 depth d = .error e

/-- The members of an object are JSON values under names. -/
def AreValues (depth : ℕ) (members : List (Doc × Doc)) : Prop :=
  ∀ m ∈ members, (∃ s, m.1 = .string s) ∧ ∃ v, Reader.value depth m.2 = .ok v

theorem Blames.mono {table' : List (List String × Reader Unit)} {members' : List (Doc × Doc)}
    (h : Blames table depth members e) (htable : table ⊆ table') (hmembers : members ⊆ members') :
    Blames table' depth members' e := by
  refine h.imp_right ?_
  rintro ⟨entry, hentry, s, d, hm, hs, hread⟩
  exact ⟨entry, htable hentry, s, d, hmembers hm, hs, hread⟩

/-- The check of an object whose members are values blames its shape or a field. -/
theorem blames_of_check (hvalues : AreValues depth members)
    (hunknown : ∀ {d : Doc} {v : Value}, Reader.value depth d = .ok v → unknown depth d = .ok ())
    (h : check table unknown depth seen members = .error e) : Blames table depth members e := by
  rcases check_eq_error h with ⟨p, rfl⟩ | ⟨⟨k, d⟩, hm, h⟩
  · exact .inl ⟨_, rfl⟩
  · obtain ⟨⟨s, rfl⟩, v, hv⟩ := hvalues _ hm
    rw [accept] at h
    simp only [Doc.name, ok_bind] at h
    cases hentry : fieldOf table (.string s, d) with
    | none =>
      simp only [hentry, hunknown hv] at h
      cases h
    | some entry =>
      simp only [hentry] at h
      obtain ⟨hmem, hs⟩ := of_fieldOf_eq_some hentry
      exact .inr ⟨entry, hmem, s, d, hm, hs, h⟩

/-- A field that is missing is part of the shape, and one that is found is to blame itself. -/
theorem blames_of_pick_field {names : List String} {missing : Option α} {r : Reader α}
    (h : (field names missing r).pick depth (Doc.named members) = .error e) :
    Blames (field names missing r).table depth members e := by
  cases hfind : find names members with
  | none =>
    rw [find] at hfind
    simp only [field, hfind] at h
    cases missing with
    | none => exact .inl ⟨_, (Except.error.inj h).symm⟩
    | some a => cases h
  | some x =>
    obtain ⟨s, d⟩ := x
    obtain ⟨hm, hs⟩ := of_find_eq_some hfind
    rw [find] at hfind
    simp only [field, hfind] at h
    exact .inr ⟨_, List.mem_cons_self, s, d, hm, hs, congrArg (Except.map fun _ => ()) h⟩

/-- The making of a record blames its shape or a field. -/
theorem blames_of_pick {P : (α : Type) → String → Reader α → Prop} {fields : Fields α}
    (hfields : All P fields) (h : fields.pick depth (Doc.named members) = .error e) :
    Blames fields.table depth members e := by
  induction hfields with
  | pure a => cases h
  | @and α β f names missing r hf hr ih =>
    rcases bind_eq_error.mp h with h | ⟨g, -, h⟩
    · exact (ih h).mono (List.subset_append_left _ _) (List.Subset.refl _)
    · rcases bind_eq_error.mp h with h | ⟨a, -, h⟩
      · exact (blames_of_pick_field h).mono (List.subset_append_right _ _) (List.Subset.refl _)
      · cases h

/-- The fields that refuse shapes refuse them in their tables. -/
theorem All.refusesShapes {guarded : String} {fields : Fields α}
    (h : All (fun _ name r => name ≠ guarded → r.RefusesShapes) fields) :
    ∀ entry ∈ fields.table, entry.1.headD "" ≠ guarded → entry.2.RefusesShapes := by
  induction h with
  | pure a => exact fun entry hentry => absurd hentry List.not_mem_nil
  | @and α β f names missing r hf hr ih =>
    intro entry hentry hname
    rcases List.mem_append.mp hentry with hentry | hentry
    · exact ih entry hentry hname
    · obtain rfl := List.mem_singleton.mp hentry
      exact (hr hname).map _

theorem AreValues.filter (h : AreValues depth members) (q : Doc × Doc → Bool) :
    AreValues depth (members.filter q) := fun m hm => h m (List.mem_filter.mp hm).1

/-- **Who is to blame when a record is not read** from an object whose members are JSON values. -/
theorem recordWith_eq_error {P : (α : Type) → String → Reader α → Prop} {name : String}
    {own : Fields (β → α)} {inner : Fields β} {inside : ℕ} (hown : All P own)
    (hinner : All P inner) (henter : Reader.enter depth = .ok inside)
    (hvalues : AreValues inside members)
    (h : recordWith name own inner depth (.object members none) = .error e) :
    Blames (own.table ++ inner.table) inside members e := by
  have hleft : own.table ⊆ own.table ++ inner.table := List.subset_append_left _ _
  have hright : inner.table ⊆ own.table ++ inner.table := List.subset_append_right _ _
  have hothers : members.filter (foreign own.table) ⊆ members := List.filter_subset_self _
  rw [recordWith, henter, ok_bind] at h
  rcases bind_eq_error.mp h with h | ⟨-, -, h⟩
  · exact (blames_of_check hvalues kept_of_value h).mono hleft (List.Subset.refl _)
  rw [atEnd, ok_bind] at h
  rcases bind_eq_error.mp h with h | ⟨make, -, h⟩
  · exact (blames_of_pick hown h).mono hleft (List.Subset.refl _)
  rcases bind_eq_error.mp h with h | ⟨-, -, h⟩
  · exact (blames_of_check (hvalues.filter _) passedOver_of_value h).mono hright hothers
  rcases bind_eq_error.mp h with h | ⟨b, -, h⟩
  · exact (blames_of_pick hinner h).mono hright hothers
  · cases h

/-! ### A field that two members are for -/

/-- Two members for one field do not pass the check. -/
theorem check_ne_ok_of_twice (htable : (table.flatMap Prod.fst).Nodup)
    {entry : List String × Reader Unit} (hentry : entry ∈ table) {s t : String} {d d' : Doc}
    (hs : s ∈ entry.1) (ht : t ∈ entry.1)
    (htwice : List.Sublist [(.string s, d), (.string t, d')] members) :
    check table unknown depth [] members ≠ .ok () := by
  intro h
  have hsub := htwice.filterMap (metBy table)
  simp only [List.filterMap_cons, metBy_eq_some htable hentry hs, metBy_eq_some htable hentry ht,
    List.filterMap_nil] at hsub
  exact List.nodup_iff_sublist.mp (check_eq_ok_iff.mp h).2.1 _ hsub

/-- A name of the other record is left to it. -/
theorem foreign_of_mem {own : Fields (β → α)} {inner : Fields β}
    (hnames : (inner.names ++ own.names).Nodup) {entry : List String × Reader Unit}
    (hentry : entry ∈ inner.table) {s : String} (hs : s ∈ entry.1) (d : Doc) :
    foreign own.table (.string s, d) = true := by
  have hinner : s ∈ inner.names := List.mem_flatMap.mpr ⟨entry, hentry, hs⟩
  have hown : s ∉ own.names := fun h => (List.nodup_append.mp hnames).2.2 s hinner s h rfl
  exact foreign_iff.mpr ⟨⟨s, rfl⟩, find?_table_eq_none hown⟩

/-- **A field that two members are for is never read**, be it the record's own or the other
one's. -/
theorem recordWith_ne_ok_of_twice {name : String} {own : Fields (β → α)} {inner : Fields β} {a : α}
    {close : Option Fault} (hnames : (inner.names ++ own.names).Nodup)
    {entry : List String × Reader Unit} (hentry : entry ∈ own.table ++ inner.table) {s t : String}
    {d d' : Doc} (hs : s ∈ entry.1) (ht : t ∈ entry.1)
    (htwice : List.Sublist [(.string s, d), (.string t, d')] members) :
    recordWith name own inner depth (.object members close) ≠ .ok a := by
  intro h
  obtain ⟨hinnerNames, hownNames, -⟩ := List.nodup_append.mp hnames
  obtain ⟨-, inside, -, -, -, hcheck, -, hothers, -, -⟩ := recordWith_object_eq_ok_iff.mp h
  rcases List.mem_append.mp hentry with hentry | hentry
  · exact check_ne_ok_of_twice hownNames hentry hs ht htwice hcheck
  · have hleft := htwice.filter (foreign own.table)
    rw [List.filter_cons_of_pos (foreign_of_mem hnames hentry hs d),
      List.filter_cons_of_pos (foreign_of_mem hnames hentry ht d'), List.filter_nil] at hleft
    exact check_ne_ok_of_twice hinnerNames hentry hs ht hleft hothers

/-! ### Which field is told -/

/-- The members that were checked have met a field, and the next one for it is refused. -/
theorem check_eq_duplicateField {front : List (Doc × Doc)}
    (hfront : check table unknown depth [] front = .ok ())
    (hmet : p ∈ front.filterMap (metBy table)) (hm : metBy table m = some p)
    (back : List (Doc × Doc)) :
    check table unknown depth [] (front ++ m :: back) = .error (.mismatch (.duplicateField p)) := by
  rw [check_append_of_ok hfront, check_cons_of_met hm, List.append_nil,
    if_pos (List.mem_reverse.mpr hmet)]

/-- **One more member for a field that is met anyway** is refused, or it is accepted and the other
one is refused, wherever the two stand. -/
theorem check_eq_duplicateField_of_inserted {pre post : List (Doc × Doc)}
    (hcheck : check table unknown depth [] (pre ++ post) = .ok ())
    (hmet : p ∈ (pre ++ post).filterMap (metBy table)) (hm : metBy table m = some p)
    (haccept : accept table unknown depth m = .ok ()) :
    check table unknown depth [] (pre ++ m :: post) =
      .error (.mismatch (.duplicateField p)) := by
  obtain ⟨hall, hnodup, -⟩ := check_eq_ok_iff.mp hcheck
  rw [List.filterMap_append] at hmet hnodup
  rcases List.mem_append.mp hmet with hmet | hmet
  · refine check_eq_duplicateField (check_eq_ok_iff.mpr ⟨fun x hx => ?_, ?_, ?_⟩) hmet hm post
    · exact hall x (List.mem_append_left _ hx)
    · exact (List.nodup_append.mp hnodup).1
    · exact fun _ _ => List.not_mem_nil
  · obtain ⟨x, hx, hxp⟩ := List.mem_filterMap.mp hmet
    obtain ⟨before, after, rfl⟩ := List.append_of_mem hx
    rw [List.filterMap_append, List.filterMap_cons, hxp] at hnodup
    -- What stands in front of the member that was there before is the inserted one and others.
    have hfront : check table unknown depth [] (pre ++ m :: before) = .ok () := by
      refine check_eq_ok_iff.mpr ⟨fun y hy => ?_, ?_, fun _ _ => List.not_mem_nil⟩
      · rcases List.mem_append.mp hy with hy | hy
        · exact hall y (List.mem_append_left _ hy)
        · rcases List.mem_cons.mp hy with rfl | hy
          · exact haccept
          · exact hall y (List.mem_append_right _ (List.mem_append_left _ hy))
      · rw [List.filterMap_append, List.filterMap_cons, hm]
        rw [← List.append_assoc] at hnodup
        have hmoved := List.nodup_middle.mp hnodup
        exact List.nodup_middle.mpr (hmoved.sublist ((List.sublist_append_left _ _).cons_cons p))
    have hmet' : p ∈ (pre ++ m :: before).filterMap (metBy table) :=
      List.mem_filterMap.mpr ⟨m, List.mem_append_right _ List.mem_cons_self, hm⟩
    have hrefused := check_eq_duplicateField hfront hmet' hxp after
    rwa [List.append_assoc, List.cons_append] at hrefused

/-- **The error names the field that now stands twice**: a member was added to an object that is
read as a record, for a field that the object has already, with a value that the field reads. -/
theorem recordWith_eq_duplicateField {P : (α : Type) → String → Reader α → Prop} {name : String}
    {own : Fields (β → α)} {inner : Fields β} {a : α} {close : Option Fault} {inside : ℕ}
    (hown : All P own) (hnames : (inner.names ++ own.names).Nodup)
    (henter : Reader.enter depth = .ok inside) {pre post : List (Doc × Doc)}
    (h : recordWith name own inner depth (.object (pre ++ post) close) = .ok a)
    {entry : List String × Reader Unit} (hentry : entry ∈ own.table ++ inner.table) {s t : String}
    {d d' : Doc} {v : Value} (ht : t ∈ entry.1) (hthere : (.string t, d') ∈ pre ++ post)
    (hs : s ∈ entry.1) (hvalue : Reader.value inside d = .ok v)
    (hread : entry.2 inside d = .ok ()) :
    recordWith name own inner depth (.object (pre ++ (.string s, d) :: post) close) =
      .error (.mismatch (.duplicateField (entry.1.headD ""))) := by
  obtain ⟨hinnerNames, hownNames, -⟩ := List.nodup_append.mp hnames
  obtain ⟨rfl, inside', make, b, henter', hcheck, hpick, hothers, -, -⟩ :=
    recordWith_object_eq_ok_iff.mp h
  obtain rfl := Except.ok.inj (henter.symm.trans henter')
  rw [recordWith, henter, ok_bind]
  rcases List.mem_append.mp hentry with hentry | hentry
  · have hmet := List.mem_filterMap.mpr ⟨_, hthere, metBy_eq_some hownNames hentry ht d'⟩
    have hrefused := check_eq_duplicateField_of_inserted hcheck hmet
      (metBy_eq_some hownNames hentry hs d) (accept_of_read hownNames hentry hs hread)
    rw [hrefused, error_bind]
  · -- To the record itself the member is an unknown one, and its own part is made as before.
    have hforeign := foreign_of_mem hnames hentry hs d
    have hunknown := (foreign_iff.mp hforeign).2
    have hrevised : Revised (fun _ => Eq) own.table kept inside (pre ++ post)
        (pre ++ (.string s, d) :: post) := by
      have hadded : ∀ m ∈ [(Doc.string s, d)], fieldOf own.table m = none ∧
          accept own.table kept inside m = .ok () :=
        List.forall_mem_singleton.mpr ⟨hunknown, accept_of_unknown hunknown (kept_of_value hvalue)⟩
      refine .of_added hadded ?_
      rw [List.append_assoc]
      exact (List.perm_append_singleton _ _).append_left pre
    have hcheck' := hrevised.check_eq_ok hown.respects_eq.of_table hcheck
    have hpick' := hrevised.pick_eq_ok hown.respects_eq hownNames hcheck hpick
    have hmet := List.mem_filterMap.mpr
      ⟨_, List.mem_filter.mpr ⟨hthere, foreign_of_mem hnames hentry ht d'⟩,
        metBy_eq_some hinnerNames hentry ht d'⟩
    rw [List.filter_append] at hothers hmet
    have hrefused := check_eq_duplicateField_of_inserted hothers hmet
      (metBy_eq_some hinnerNames hentry hs d) (accept_of_read hinnerNames hentry hs hread)
    rw [← List.filter_cons_of_pos hforeign, ← List.filter_append] at hrefused
    rw [hcheck', ok_bind, atEnd, ok_bind, hpick', ok_bind]
    exact congrArg (· >>= _) hrefused

end Fields

end WalletApi.Json
