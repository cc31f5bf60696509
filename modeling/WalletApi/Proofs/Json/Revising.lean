import WalletApi.Proofs.Json.Containers
import WalletApi.Proofs.Json.Members

/-!
# Revising the members of an object

A newer server may write the members of an object in another order, write a field under another of
its names, write an equivalent value, or add members that nobody asked for. All of this is one
revision of the members (`WalletApi.Json.Fields.Revised`), relative to a relation between the old
and the new values that may differ from field to field. The one thing that the fields have to
provide is that their readers keep their answers between related values
(`WalletApi.Json.Fields.Respects`). Then the check passes as before, each field finds a related
value or again none, and the record that is made is the same one
(`WalletApi.Json.Fields.record_of_revised`). A record that holds the fields of another one beside
its own sorts the members first, and a revision of all of them is a revision of each part
(`WalletApi.Json.Fields.recordWith_of_revised`).
-/

namespace WalletApi.Json

variable {α β : Type}

/-- **A reader keeps its answers** between related documents. -/
structure Reader.Respects (r : Reader α) (R : Doc → Doc → Prop) : Prop where
  reads : ∀ {depth : ℕ} {d d' : Doc} {a : α}, R d d' → r depth d = .ok a → r depth d' = .ok a

namespace Fields

variable {R : String → Doc → Doc → Prop} {table : List (List String × Reader Unit)}
  {unknown : Unknown} {depth : ℕ} {m m' : Doc × Doc} {members members' : List (Doc × Doc)}

/-! ### Readers of fields -/

/-- Each field has a property, which may depend on the name that is told in messages. -/
inductive All (P : (α : Type) → String → Reader α → Prop) : {α : Type} → Fields α → Prop
  | pure {α : Type} (a : α) : All P (Fields.pure a)
  | and {α β : Type} {f : Fields (α → β)} {names : List String} {missing : Option α}
    {r : Reader α} (hf : All P f) (hr : P α (names.headD "") r) :
    All P (f.and (field names missing r))

/-- **All readers of the fields keep their answers** between related values; which values are
related may differ from field to field. -/
abbrev Respects (R : String → Doc → Doc → Prop) (fields : Fields α) : Prop :=
  All (fun _ name r => r.Respects (R name)) fields

/-- Equal values are read equally. -/
theorem All.respects_eq {P : (α : Type) → String → Reader α → Prop} {fields : Fields α}
    (h : All P fields) : fields.Respects fun _ => Eq := by
  induction h with
  | pure a => exact .pure a
  | and _ _ ih => exact .and ih ⟨fun heq hread => heq ▸ hread⟩

/-- What a field asks of a value is asked of related values. -/
theorem Respects.of_table {fields : Fields α} (h : fields.Respects R) :
    ∀ entry ∈ fields.table, entry.2.Respects (R (entry.1.headD "")) := by
  induction h with
  | pure a => exact fun entry hentry => absurd hentry List.not_mem_nil
  | @and α β f names missing r hf hr ih =>
    intro entry hentry
    rcases List.mem_append.mp hentry with hentry | hentry
    · exact ih entry hentry
    · obtain rfl := List.mem_singleton.mp hentry
      refine ⟨fun hd h => ?_⟩
      obtain ⟨b, hb, rfl⟩ := map_eq_ok.mp h
      exact map_eq_ok.mpr ⟨b, hr.reads hd hb, rfl⟩

/-- A field that finds a related value, or again none, has the same value. -/
theorem pick_field_eq_ok {S : Doc → Doc → Prop} {names : List String} {missing : Option α}
    {r : Reader α} {a : α} (hr : r.Respects S)
    (hfind : Option.Rel (fun x x' => S x.2 x'.2) (find names members) (find names members'))
    (hpick : (field names missing r).pick depth (Doc.named members) = .ok a) :
    (field names missing r).pick depth (Doc.named members') = .ok a := by
  generalize hx : find names members = x at hfind
  generalize hx' : find names members' = x' at hfind
  rw [find] at hx hx'
  simp only [field, hx] at hpick
  simp only [field, hx']
  cases hfind with
  | none => exact hpick
  | @some m m' hvalues =>
    obtain ⟨s, d⟩ := m
    obtain ⟨s', d'⟩ := m'
    exact hr.reads hvalues hpick

/-- The fields that find related values make the same record. -/
theorem Respects.pick_eq_ok {fields : Fields α} {a : α} (h : fields.Respects R)
    (hfind : ∀ entry ∈ fields.table, Option.Rel (fun x x' => R (entry.1.headD "") x.2 x'.2)
      (find entry.1 members) (find entry.1 members'))
    (hpick : fields.pick depth (Doc.named members) = .ok a) :
    fields.pick depth (Doc.named members') = .ok a := by
  induction h with
  | pure b => exact hpick
  | @and α β f names missing r hf hr ih =>
    obtain ⟨g, hg, hpick⟩ := bind_eq_ok.mp hpick
    obtain ⟨b, hb, hpick⟩ := bind_eq_ok.mp hpick
    have hg' := ih (fun entry hentry => hfind entry (List.mem_append_left _ hentry)) hg
    have hb' : (field names missing r).pick depth (Doc.named members') = .ok b :=
      pick_field_eq_ok hr (hfind _ (List.mem_append_right _ List.mem_cons_self)) hb
    exact bind_eq_ok.mpr ⟨g, hg', bind_eq_ok.mpr ⟨b, hb', hpick⟩⟩

/-- A field that takes a related item, or none where there is none, has the same value. -/
theorem take_field_eq_ok {S : Doc → Doc → Prop} {names : List String} {missing : Option α}
    {r : Reader α} {a : α} (hr : r.Respects S) {s t : Sequence} {items : List Doc}
    (hitems : List.Forall₂ S s.items items)
    (htake : (field names missing r).take depth s = .ok (a, t)) :
    ∃ rest, List.Forall₂ S t.items rest ∧ (field names missing r).take depth
      { s with items := items } = .ok (a, { t with items := rest }) := by
  obtain ⟨old, close, taken, expected⟩ := s
  cases hitems with
  | nil =>
    cases close with
    | some fault => cases htake
    | none =>
      cases missing with
      | none => cases htake
      | some b =>
        obtain ⟨rfl, rfl⟩ := Prod.mk.inj (Except.ok.inj htake)
        exact ⟨[], .nil, rfl⟩
  | @cons d d' old rest hd hrest =>
    obtain ⟨b, hb, htake⟩ := bind_eq_ok.mp htake
    obtain ⟨rfl, rfl⟩ := Prod.mk.inj (Except.ok.inj htake)
    exact ⟨rest, hrest, bind_eq_ok.mpr ⟨b, hr.reads hd hb, rfl⟩⟩

/-- The fields that take related items take the same values. -/
theorem Respects.take_eq_ok {S : Doc → Doc → Prop} {fields : Fields α} {a : α}
    (h : fields.Respects fun _ => S) {s t : Sequence} {items : List Doc}
    (hitems : List.Forall₂ S s.items items) (htake : fields.take depth s = .ok (a, t)) :
    ∃ rest, List.Forall₂ S t.items rest ∧
      fields.take depth { s with items := items } = .ok (a, { t with items := rest }) := by
  induction h generalizing s t items with
  | pure b =>
    obtain ⟨rfl, rfl⟩ := Prod.mk.inj (Except.ok.inj htake)
    exact ⟨items, hitems, rfl⟩
  | @and α β f names missing r hf hr ih =>
    obtain ⟨⟨g, u⟩, hg, htake⟩ := bind_eq_ok.mp htake
    obtain ⟨⟨b, v⟩, hb, htake⟩ := bind_eq_ok.mp htake
    obtain ⟨rfl, rfl⟩ := Prod.mk.inj (Except.ok.inj htake)
    obtain ⟨middle, hmiddle, hg'⟩ := ih hitems hg
    obtain ⟨rest, hrest, hb'⟩ := take_field_eq_ok hr hmiddle hb
    refine ⟨rest, hrest, ?_⟩
    rw [Fields.and, seq]
    simp only [hg', hb', ok_bind]
    rfl

/-! ### Revised members -/

/-- **A revised member**: it is for the same field as before and has a related value, or there is no
such field and it is accepted as before. -/
structure Keeps (R : String → Doc → Doc → Prop) (table : List (List String × Reader Unit))
    (unknown : Unknown) (depth : ℕ) (m m' : Doc × Doc) : Prop where
  named : (∃ s, m'.1 = .string s) ↔ ∃ s, m.1 = .string s
  entry : fieldOf table m' = fieldOf table m
  value : ∀ entry, fieldOf table m = some entry → R (entry.1.headD "") m.2 m'.2
  unknown : fieldOf table m = none → unknown depth m.2 = .ok () → unknown depth m'.2 = .ok ()

theorem Keeps.metBy_eq (h : Keeps R table unknown depth m m') : metBy table m' = metBy table m := by
  rw [metBy, metBy, h.entry]

theorem Keeps.accept_eq_ok (h : Keeps R table unknown depth m m')
    (htable : ∀ entry ∈ table, entry.2.Respects (R (entry.1.headD "")))
    (hm : accept table unknown depth m = .ok ()) : accept table unknown depth m' = .ok () := by
  obtain ⟨hnamed, hknown, hunknown⟩ := accept_eq_ok_iff.mp hm
  refine accept_eq_ok_iff.mpr ⟨h.named.mpr hnamed, fun entry hentry => ?_, fun hentry => ?_⟩
  · rw [h.entry] at hentry
    obtain ⟨s, hs⟩ := hnamed
    obtain ⟨k, d⟩ := m
    subst hs
    have hrespects := htable entry (of_fieldOf_eq_some hentry).1
    exact hrespects.reads (h.value entry hentry) (hknown entry hentry)
  · rw [h.entry] at hentry
    exact h.unknown hentry (hunknown hentry)

/-- **Revised members**: each of the old ones is revised, members that no field knows are added, and
all of them are put in any order. -/
inductive Revised (R : String → Doc → Doc → Prop) (table : List (List String × Reader Unit))
    (unknown : Unknown) (depth : ℕ) (members members' : List (Doc × Doc)) : Prop
  | intro {mid added : List (Doc × Doc)}
    (hkept : List.Forall₂ (Keeps R table unknown depth) members mid)
    (hadded : ∀ m ∈ added, fieldOf table m = none ∧ accept table unknown depth m = .ok ())
    (hperm : (mid ++ added).Perm members')

theorem Keeps.refl (m : Doc × Doc) : Keeps (fun _ => Eq) table unknown depth m m :=
  ⟨Iff.rfl, rfl, fun _ _ => rfl, fun _ h => h⟩

/-- Members that no field knows are added, in any place. -/
theorem Revised.of_added {added : List (Doc × Doc)}
    (hadded : ∀ m ∈ added, fieldOf table m = none ∧ accept table unknown depth m = .ok ())
    (hperm : (members ++ added).Perm members') :
    Revised (fun _ => Eq) table unknown depth members members' :=
  ⟨List.forall₂_same.mpr fun m _ => .refl m, hadded, hperm⟩

theorem Revised.exists_of_mem_old (h : Revised R table unknown depth members members')
    (hm : m ∈ members) : ∃ m' ∈ members', Keeps R table unknown depth m m' := by
  obtain ⟨hkept, -, hperm⟩ := h
  obtain ⟨m', hm', hkeeps⟩ := exists_of_forall₂ hkept hm
  exact ⟨m', hperm.mem_iff.mp (List.mem_append_left _ hm'), hkeeps⟩

theorem Revised.exists_of_mem_new (h : Revised R table unknown depth members members')
    (hm' : m' ∈ members') : (∃ m ∈ members, Keeps R table unknown depth m m') ∨
      fieldOf table m' = none ∧ accept table unknown depth m' = .ok () := by
  obtain ⟨hkept, hadded, hperm⟩ := h
  rcases List.mem_append.mp (hperm.mem_iff.mpr hm') with hm' | hm'
  · exact .inl (exists_of_forall₂ hkept.flip hm')
  · exact .inr (hadded m' hm')

/-- A revision meets the same fields. -/
theorem Revised.perm_metBy (h : Revised R table unknown depth members members') :
    (members.filterMap (metBy table)).Perm (members'.filterMap (metBy table)) := by
  obtain @⟨mid, added, hkept, hadded, hperm⟩ := h
  have hmid : mid.filterMap (metBy table) = members.filterMap (metBy table) := by
    clear hperm
    induction hkept with
    | nil => rfl
    | cons hm _ ih => rw [List.filterMap_cons, List.filterMap_cons, hm.metBy_eq, ih]
  have hnone : added.filterMap (metBy table) = [] :=
    List.filterMap_eq_nil_iff.mpr fun m hm => by rw [metBy, (hadded m hm).1]; rfl
  have hall := hperm.filterMap (metBy table)
  rwa [List.filterMap_append, hmid, hnone, List.append_nil] at hall

/-- **The check passes as before.** -/
theorem Revised.check_eq_ok (h : Revised R table unknown depth members members')
    (htable : ∀ entry ∈ table, entry.2.Respects (R (entry.1.headD "")))
    (hcheck : check table unknown depth [] members = .ok ()) :
    check table unknown depth [] members' = .ok () := by
  obtain ⟨haccept, hnodup, -⟩ := check_eq_ok_iff.mp hcheck
  refine check_eq_ok_iff.mpr ⟨?_, h.perm_metBy.nodup_iff.mp hnodup, fun _ _ => List.not_mem_nil⟩
  intro m' hm'
  rcases h.exists_of_mem_new hm' with ⟨m, hm, hkeeps⟩ | ⟨-, hadded⟩
  · exact hkeeps.accept_eq_ok htable (haccept m hm)
  · exact hadded

/-- **Each field finds a related value, or again none.** -/
theorem Revised.find_rel (h : Revised R table unknown depth members members')
    (htable : (table.flatMap Prod.fst).Nodup)
    (hnodup : (members.filterMap (metBy table)).Nodup) {entry : List String × Reader Unit}
    (hentry : entry ∈ table) :
    Option.Rel (fun x x' => R (entry.1.headD "") x.2 x'.2) (find entry.1 members)
      (find entry.1 members') := by
  have hnodup' := h.perm_metBy.nodup_iff.mp hnodup
  cases hfind : find entry.1 members with
  | some x =>
    obtain ⟨s, d⟩ := x
    obtain ⟨hm, hs⟩ := (find_eq_some_iff htable hnodup hentry).mp hfind
    have hknown := (fieldOf_eq_some_iff htable hentry (d := d)).mpr hs
    obtain ⟨⟨k', d'⟩, hm', hkeeps⟩ := h.exists_of_mem_old hm
    obtain ⟨s', rfl⟩ := hkeeps.named.mpr ⟨s, rfl⟩
    have hs' : s' ∈ entry.1 := (of_fieldOf_eq_some (hkeeps.entry.trans hknown)).2
    rw [(find_eq_some_iff htable hnodup' hentry).mpr ⟨hm', hs'⟩]
    exact .some (hkeeps.value entry hknown)
  | none =>
    cases hfind' : find entry.1 members' with
    | none => exact .none
    | some x' =>
      obtain ⟨s', d'⟩ := x'
      obtain ⟨hm', hs'⟩ := (find_eq_some_iff htable hnodup' hentry).mp hfind'
      have hknown' := (fieldOf_eq_some_iff htable hentry (d := d')).mpr hs'
      -- A member that the field knows was not added, so that there was one before.
      rcases h.exists_of_mem_new hm' with ⟨⟨k, d⟩, hm, hkeeps⟩ | ⟨hadded, -⟩
      · obtain ⟨s, rfl⟩ := hkeeps.named.mp ⟨s', rfl⟩
        have hs : s ∈ entry.1 := (of_fieldOf_eq_some (hkeeps.entry.symm.trans hknown')).2
        rw [(find_eq_some_iff htable hnodup hentry).mpr ⟨hm, hs⟩] at hfind
        cases hfind
      · rw [hadded] at hknown'
        cases hknown'

/-- The fields of revised members make the same record. -/
theorem Revised.pick_eq_ok {fields : Fields α} {a : α}
    (h : Revised R fields.table unknown depth members members') (hfields : fields.Respects R)
    (hnames : fields.names.Nodup) (hcheck : check fields.table unknown depth [] members = .ok ())
    (hpick : fields.pick depth (Doc.named members) = .ok a) :
    fields.pick depth (Doc.named members') = .ok a :=
  hfields.pick_eq_ok
    (fun _ hentry => h.find_rel hnames (check_eq_ok_iff.mp hcheck).2.1 hentry) hpick

/-! ### Records -/

theorem record_object_eq_ok_iff {name : String} {fields : Fields α} {close : Option Fault} {a : α} :
    record name fields depth (.object members close) = .ok a ↔
      close = none ∧ ∃ inside, Reader.enter depth = .ok inside ∧
        check fields.table passedOver inside [] members = .ok () ∧
        fields.pick inside (Doc.named members) = .ok a := by
  constructor
  · intro h
    obtain ⟨inside, henter, h⟩ := bind_eq_ok.mp h
    obtain ⟨⟨⟩, hcheck, h⟩ := bind_eq_ok.mp h
    obtain ⟨⟨⟩, hclose, hpick⟩ := bind_eq_ok.mp h
    exact ⟨atEnd_eq_ok_iff.mp hclose, inside, henter, hcheck, hpick⟩
  · rintro ⟨rfl, inside, henter, hcheck, hpick⟩
    rw [record, henter, ok_bind, hcheck, ok_bind]
    exact hpick

/-- **A record is the same one after a revision** of its members. -/
theorem record_of_revised {name : String} {fields : Fields α} {close : Option Fault} {a : α}
    (hfields : fields.Respects R) (hnames : fields.names.Nodup)
    (hrevised : ∀ inside, Revised R fields.table passedOver inside members members')
    (h : record name fields depth (.object members close) = .ok a) :
    record name fields depth (.object members' close) = .ok a := by
  obtain ⟨hclose, inside, henter, hcheck, hpick⟩ := record_object_eq_ok_iff.mp h
  have hcheck' := (hrevised inside).check_eq_ok hfields.of_table hcheck
  have hpick' := (hrevised inside).pick_eq_ok hfields hnames hcheck hpick
  exact record_object_eq_ok_iff.mpr ⟨hclose, inside, henter, hcheck', hpick'⟩

/-- A member that is JSON and has no name of the fields is accepted by the record. -/
theorem fieldOf_accept_of_unknown {s : String} {d : Doc}
    (hs : s ∉ table.flatMap Prod.fst) (hread : unknown depth d = .ok ()) :
    fieldOf table (.string s, d) = none ∧ accept table unknown depth (.string s, d) = .ok () :=
  ⟨find?_table_eq_none hs, accept_of_unknown (find?_table_eq_none hs) hread⟩

/-- **A record is the same one with more members** that it does not know. -/
theorem record_of_added {P : (α : Type) → String → Reader α → Prop} {name : String}
    {fields : Fields α} {close : Option Fault} {a : α} {added : List (Doc × Doc)}
    (hfields : All P fields) (hnames : fields.names.Nodup)
    (hadded : ∀ m ∈ added, ∃ s inside v, m.1 = .string s ∧ s ∉ fields.names ∧
      Reader.value inside m.2 = .ok v)
    (hperm : (members ++ added).Perm members')
    (h : record name fields depth (.object members close) = .ok a) :
    record name fields depth (.object members' close) = .ok a := by
  refine record_of_revised hfields.respects_eq hnames (fun _ => .of_added (fun m hm => ?_) hperm) h
  obtain ⟨s, inside, v, hs, hname, hv⟩ := hadded m hm
  obtain ⟨k, d⟩ := m
  subst hs
  exact fieldOf_accept_of_unknown hname (passedOver_of_value hv)

/-- A member that has a name and is left to another record. -/
def foreign (table : List (List String × Reader Unit)) (m : Doc × Doc) : Bool :=
  match m.1 with
  | .string s => !(table.any fun entry => entry.1.contains s)
  | _ => false

theorem foreign_iff :
    foreign table m = true ↔ (∃ s, m.1 = .string s) ∧ fieldOf table m = none := by
  obtain ⟨k, d⟩ := m
  cases k with
  | string s => simp [foreign, fieldOf]
  | _ =>
    refine ⟨fun h => ?_, fun h => ?_⟩
    · cases h
    · cases h.1.choose_spec

theorem recordWith_object_eq_ok_iff {name : String} {own : Fields (β → α)} {inner : Fields β}
    {close : Option Fault} {a : α} :
    recordWith name own inner depth (.object members close) = .ok a ↔
      close = none ∧ ∃ inside make b, Reader.enter depth = .ok inside ∧
        check own.table kept inside [] members = .ok () ∧
        own.pick inside (Doc.named members) = .ok make ∧
        check inner.table passedOver inside [] (members.filter (foreign own.table)) = .ok () ∧
        inner.pick inside (Doc.named (members.filter (foreign own.table))) = .ok b ∧
        make b = a := by
  constructor
  · intro h
    obtain ⟨inside, henter, h⟩ := bind_eq_ok.mp h
    obtain ⟨⟨⟩, hcheck, h⟩ := bind_eq_ok.mp h
    obtain ⟨⟨⟩, hclose, h⟩ := bind_eq_ok.mp h
    obtain ⟨make, hpick, h⟩ := bind_eq_ok.mp h
    obtain ⟨⟨⟩, hothers, h⟩ := bind_eq_ok.mp h
    obtain ⟨b, hb, h⟩ := bind_eq_ok.mp h
    exact ⟨atEnd_eq_ok_iff.mp hclose, inside, make, b, henter, hcheck, hpick, hothers, hb,
      Except.ok.inj h⟩
  · rintro ⟨rfl, inside, make, b, henter, hcheck, hpick, hothers, hb, rfl⟩
    rw [recordWith, henter, ok_bind, hcheck, ok_bind, atEnd, ok_bind, hpick, ok_bind]
    exact bind_eq_ok.mpr ⟨(), hothers, bind_eq_ok.mpr ⟨b, hb, rfl⟩⟩

/-- Members that are revised for two tables are revised for the second one where the first one does
not know them. -/
theorem Revised.filter_foreign {own inner : List (List String × Reader Unit)}
    {mid added : List (Doc × Doc)}
    (hkept : List.Forall₂ (fun m m' => Keeps R own kept depth m m' ∧
      Keeps R inner passedOver depth m m') members mid)
    (hadded : ∀ m ∈ added, fieldOf inner m = none ∧ accept inner passedOver depth m = .ok ())
    (hperm : (mid ++ added).Perm members') :
    Revised R inner passedOver depth (members.filter (foreign own))
      (members'.filter (foreign own)) := by
  have hforeign : ∀ {m m'}, Keeps R own kept depth m m' ∧ Keeps R inner passedOver depth m m' →
      (foreign own m = true ↔ foreign own m' = true) := by
    rintro m m' ⟨h, -⟩
    rw [foreign_iff, foreign_iff, h.named, h.entry]
  have hfiltered := List.rel_filter (fun _ _ h => hforeign h) hkept
  have hboth := hperm.filter (foreign own)
  rw [List.filter_append] at hboth
  exact ⟨hfiltered.imp fun _ _ h => h.2, fun m hm => hadded m (List.mem_filter.mp hm).1, hboth⟩

/-- **A record that holds the fields of another one is the same one after a revision** of all the
members. -/
theorem recordWith_of_revised {name : String} {own : Fields (β → α)} {inner : Fields β}
    {close : Option Fault} {a : α} {mid added : List (Doc × Doc)} (hown : own.Respects R)
    (hinner : inner.Respects R) (hnames : (inner.names ++ own.names).Nodup)
    (hkept : ∀ inside, List.Forall₂ (fun m m' => Keeps R own.table kept inside m m' ∧
      Keeps R inner.table passedOver inside m m') members mid)
    (hadded : ∀ inside, Reader.enter depth = .ok inside → ∀ m ∈ added,
      (fieldOf own.table m = none ∧ accept own.table kept inside m = .ok ()) ∧
        fieldOf inner.table m = none ∧ accept inner.table passedOver inside m = .ok ())
    (hperm : (mid ++ added).Perm members')
    (h : recordWith name own inner depth (.object members close) = .ok a) :
    recordWith name own inner depth (.object members' close) = .ok a := by
  obtain ⟨hinnerNames, hownNames, -⟩ := List.nodup_append.mp hnames
  obtain ⟨hclose, inside, make, b, henter, hcheck, hpick, hothers, hb, hmake⟩ :=
    recordWith_object_eq_ok_iff.mp h
  have hrevised : Revised R own.table kept inside members members' :=
    ⟨(hkept inside).imp fun _ _ h => h.1, fun m hm => (hadded inside henter m hm).1, hperm⟩
  have hforeign := Revised.filter_foreign (hkept inside)
    (fun m hm => (hadded inside henter m hm).2) hperm
  refine recordWith_object_eq_ok_iff.mpr ⟨hclose, inside, make, b, henter, ?_, ?_, ?_, ?_, hmake⟩
  · exact hrevised.check_eq_ok hown.of_table hcheck
  · exact hrevised.pick_eq_ok hown hownNames hcheck hpick
  · exact hforeign.check_eq_ok hinner.of_table hothers
  · exact hforeign.pick_eq_ok hinner hinnerNames hothers hb

/-- **So is a record that holds the fields of another one.** -/
theorem recordWith_of_added {P : (α : Type) → String → Reader α → Prop} {name : String}
    {own : Fields (β → α)} {inner : Fields β} {close : Option Fault} {a : α}
    {added : List (Doc × Doc)} {inside : ℕ} (hown : All P own) (hinner : All P inner)
    (hnames : (inner.names ++ own.names).Nodup) (henter : Reader.enter depth = .ok inside)
    (hadded : ∀ m ∈ added, ∃ s v, m.1 = .string s ∧ s ∉ own.names ++ inner.names ∧
      Reader.value inside m.2 = .ok v)
    (hperm : (members ++ added).Perm members')
    (h : recordWith name own inner depth (.object members close) = .ok a) :
    recordWith name own inner depth (.object members' close) = .ok a := by
  refine recordWith_of_revised hown.respects_eq hinner.respects_eq hnames
    (fun _ => List.forall₂_same.mpr fun m _ => ⟨.refl m, .refl m⟩) (fun inside' henter' m hm => ?_)
    hperm h
  obtain rfl := Except.ok.inj (henter.symm.trans henter')
  obtain ⟨s, v, hs, hname, hv⟩ := hadded m hm
  obtain ⟨k, d⟩ := m
  subst hs
  exact ⟨fieldOf_accept_of_unknown (fun h => hname (List.mem_append_left _ h)) (kept_of_value hv),
    fieldOf_accept_of_unknown (fun h => hname (List.mem_append_right _ h))
      (passedOver_of_value hv)⟩

end Fields

end WalletApi.Json
