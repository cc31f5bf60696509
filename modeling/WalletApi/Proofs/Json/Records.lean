import Mathlib.Data.List.Nodup
import WalletApi.Proofs.Json.Restoring

/-!
# Records are restored field by field

A record is written as one member for each field, except for those that are left out because a
missing member stands for their value. `WalletApi.Json.Fields.Writes` pairs the fields with what is
written for them, one by one, and all that is needed besides is that no two fields share a name:
then each field finds its own member among all of them, none is met twice, and none is missing
without a default (`WalletApi.Json.Fields.restores_record`). With the fields of another record in
the same object this still holds as long as the names of both are apart, since then what one record
does not know is exactly what the other was written as
(`WalletApi.Json.Fields.restores_recordWith`).
-/

namespace WalletApi.Json.Fields

variable {α β : Type}

/-- The names of all fields. -/
def names (fields : Fields α) : List String := fields.table.flatMap Prod.fst

/-! ### What is written -/

/-- **What one field is written as**: a member with one of its names, or nothing where a missing
member stands for its value. -/
inductive FieldWrites (names : List String) (missing : Option α) (r : Reader α) :
    List (String × Value) → α → Prop
  | member {name : String} {v : Value} {a : α} (hname : name ∈ names) (h : Restores r v a) :
    FieldWrites names missing r [(name, v)] a
  | omitted {a : α} (h : missing = some a) : FieldWrites names missing r [] a

/-- **What the fields of a record are written as**, in order, and the record that they make. -/
inductive Writes : {α : Type} → Fields α → List (String × Value) → α → Prop
  | pure {α : Type} (a : α) : Writes (Fields.pure a) [] a
  | and {α β : Type} {f : Fields (α → β)} {l : List (String × Value)} {g : α → β}
    {names : List String} {missing : Option α} {r : Reader α} {m : List (String × Value)} {a : α}
    (hf : Writes f l g) (hx : FieldWrites names missing r m a) :
    Writes (f.and (field names missing r)) (l ++ m) (g a)

theorem FieldWrites.single {name : String} {missing : Option α} {r : Reader α} {v : Value} {a : α}
    (h : Restores r v a) : FieldWrites [name] missing r [(name, v)] a :=
  .member List.mem_cons_self h

theorem names_and (f : Fields (α → β)) (names : List String) (missing : Option α) (r : Reader α) :
    (f.and (field names missing r)).names = f.names ++ names := by
  rw [Fields.names, Fields.names, Fields.and, seq, field, List.flatMap_append,
    List.flatMap_singleton]

variable {names : List String} {missing : Option α} {r : Reader α} {fields : Fields α}
  {l m : List (String × Value)} {a : α} {depth : ℕ}

theorem FieldWrites.mem_names (h : FieldWrites names missing r m a) : ∀ e ∈ m, e.1 ∈ names := by
  cases h with
  | member hname h =>
    intro e he
    rwa [List.mem_singleton.mp he]
  | omitted h => exact fun e he => nomatch he

theorem Writes.mem_names (h : Writes fields l a) : ∀ e ∈ l, e.1 ∈ fields.names := by
  induction h with
  | pure a => exact fun e he => nomatch he
  | and hf hx ih =>
    intro e he
    rw [names_and]
    rcases List.mem_append.mp he with he | he
    · exact List.mem_append_left _ (ih e he)
    · exact List.mem_append_right _ (hx.mem_names e he)

theorem FieldWrites.isWhole (h : FieldWrites names missing r m a) : ∀ e ∈ m, e.2.IsWhole := by
  cases h with
  | member hname h =>
    intro e he
    rw [List.mem_singleton.mp he]
    exact h.whole
  | omitted h => exact fun e he => nomatch he

theorem Writes.isWhole (h : Writes fields l a) : ∀ e ∈ l, e.2.IsWhole := by
  induction h with
  | pure a => exact fun e he => nomatch he
  | and hf hx ih =>
    intro e he
    rcases List.mem_append.mp he with he | he
    · exact ih e he
    · exact hx.isWhole e he

/-- Members of two parts whose names are apart have no key in common. -/
theorem nodup_keys_append_of_apart {these those : List String} (hl : (l.map Prod.fst).Nodup)
    (hm : (m.map Prod.fst).Nodup) (hthese : ∀ e ∈ l, e.1 ∈ these) (hthose : ∀ e ∈ m, e.1 ∈ those)
    (hapart : ∀ a ∈ these, ∀ b ∈ those, a ≠ b) : ((l ++ m).map Prod.fst).Nodup := by
  rw [List.map_append, List.nodup_append]
  refine ⟨hl, hm, fun k hk k' hk' => ?_⟩
  obtain ⟨e, he, rfl⟩ := List.mem_map.mp hk
  obtain ⟨e', he', rfl⟩ := List.mem_map.mp hk'
  exact hapart _ (hthese e he) _ (hthose e' he')

theorem FieldWrites.nodup_keys (h : FieldWrites names missing r m a) :
    (m.map Prod.fst).Nodup := by
  cases h with
  | member hname h => exact List.nodup_singleton _
  | omitted h => exact List.nodup_nil

/-- No name is written twice. -/
theorem Writes.nodup_keys (h : Writes fields l a) (hnodup : fields.names.Nodup) :
    (l.map Prod.fst).Nodup := by
  induction h with
  | pure a => exact List.nodup_nil
  | and hf hx ih =>
    rw [names_and, List.nodup_append] at hnodup
    obtain ⟨hleft, -, hapart⟩ := hnodup
    exact nodup_keys_append_of_apart (ih hleft) hx.nodup_keys hf.mem_names hx.mem_names hapart

/-- Nor is it where the fields of another record stand in front, if the names of both are apart. -/
theorem Writes.nodup_keys_append {own : Fields (β → α)} {inner : Fields β} {g : β → α} {b : β}
    (hown : Writes own l g) (hinner : Writes inner m b)
    (hnodup : (inner.names ++ own.names).Nodup) : ((m ++ l).map Prod.fst).Nodup := by
  obtain ⟨hinnerNames, hownNames, hapart⟩ := List.nodup_append.mp hnodup
  exact nodup_keys_append_of_apart (hinner.nodup_keys hinnerNames) (hown.nodup_keys hownNames)
    hinner.mem_names hown.mem_names hapart

/-! ### Each field finds its member -/

/-- A member with the document of its value. -/
def docMember (e : String × Value) : String × Doc := (e.1, Doc.ofValue e.2)

theorem named_ofMembers (l : List (String × Value)) :
    Doc.named (Doc.ofMembers l) = l.map docMember := by
  induction l with
  | nil => rfl
  | cons e l ih =>
    rw [Doc.ofMembers, Doc.named, List.filterMap_cons, List.map_cons, ← ih]
    rfl

theorem find?_eq_none (h : ∀ e ∈ l, e.1 ∉ names) :
    (l.map docMember).find? (fun m => names.contains m.1) = none := by
  refine List.find?_eq_none.mpr fun d hd => ?_
  obtain ⟨e, he, rfl⟩ := List.mem_map.mp hd
  rw [List.contains_iff_mem]
  exact h e he

/-- A field finds what was written for it among members of other names. -/
theorem FieldWrites.pick_eq (h : FieldWrites names missing r m a)
    {pre post : List (String × Value)} (hpre : ∀ e ∈ pre, e.1 ∉ names)
    (hpost : ∀ e ∈ post, e.1 ∉ names) (hdepth : ∀ e ∈ m, e.2.nesting ≤ depth) :
    (field names missing r).pick depth ((pre ++ (m ++ post)).map docMember) = .ok a := by
  rw [field, List.map_append, List.map_append]
  simp only [List.find?_append, find?_eq_none hpre, find?_eq_none hpost, Option.none_or,
    Option.or_none]
  cases h with
  | @member name v a hname h =>
    have hfind : (List.map docMember [(name, v)]).find? (fun m => names.contains m.1) =
        some (name, Doc.ofValue v) :=
      List.find?_cons_of_pos (List.contains_iff_mem.mpr hname)
    simp only [hfind]
    exact h.reads (hdepth _ List.mem_cons_self)
  | omitted h =>
    subst h
    rfl

/-- **The fields find what was written for them** among members of other names. -/
theorem Writes.pick_eq (h : Writes fields l a) (hnodup : fields.names.Nodup)
    (pre post : List (String × Value)) (hpre : ∀ e ∈ pre, e.1 ∉ fields.names)
    (hpost : ∀ e ∈ post, e.1 ∉ fields.names) (hdepth : ∀ e ∈ l, e.2.nesting ≤ depth) :
    fields.pick depth ((pre ++ (l ++ post)).map docMember) = .ok a := by
  induction h generalizing post with
  | pure a => rfl
  | @and α β f l g names missing r m a hf hx ih =>
    rw [names_and] at hnodup hpre hpost
    obtain ⟨hleft, -, hapart⟩ := List.nodup_append.mp hnodup
    -- For the fields before it the last member is one that follows, and for the last field all of
    -- theirs stand in front.
    have hf' : f.pick depth ((pre ++ (l ++ (m ++ post))).map docMember) = .ok g := by
      refine ih hleft _ (fun e he hmem => hpre e he (List.mem_append_left _ hmem)) ?_
        fun e he => hdepth e (List.mem_append_left _ he)
      intro e he hmem
      rcases List.mem_append.mp he with he | he
      · exact hapart _ hmem _ (hx.mem_names e he) rfl
      · exact hpost e he (List.mem_append_left _ hmem)
    have hx' : (field names missing r).pick depth (((pre ++ l) ++ (m ++ post)).map docMember) =
        .ok a := by
      refine hx.pick_eq ?_ (fun e he hmem => hpost e he (List.mem_append_right _ hmem))
        fun e he => hdepth e (List.mem_append_right _ he)
      intro e he hmem
      rcases List.mem_append.mp he with he | he
      · exact hpre e he (List.mem_append_right _ hmem)
      · exact hapart _ (hf.mem_names e he) _ hmem rfl
    rw [List.append_assoc] at hx'
    rw [List.append_assoc, Fields.and, seq]
    simp only [hf', hx', ok_bind]
    rfl

/-! ### The members pass the check -/

section Check

variable {table : List (List String × Reader Unit)} {unknown : Unknown} {seen : List String}

theorem find?_table_eq_none {name : String} (h : name ∉ table.flatMap Prod.fst) :
    table.find? (fun entry => entry.1.contains name) = none := by
  refine List.find?_eq_none.mpr fun entry hentry hcontains => h ?_
  exact List.mem_flatMap.mpr ⟨entry, hentry, List.contains_iff_mem.mp hcontains⟩

/-- Members that no field knows are passed on to be checked otherwise. -/
theorem check_of_unknown {pre : List (String × Value)}
    (hnames : ∀ e ∈ pre, e.1 ∉ table.flatMap Prod.fst)
    (hvalues : ∀ e ∈ pre, unknown depth (Doc.ofValue e.2) = .ok ())
    (post : List (String × Value)) :
    check table unknown depth seen (Doc.ofMembers (pre ++ post)) =
      check table unknown depth seen (Doc.ofMembers post) := by
  induction pre with
  | nil => rfl
  | cons e pre ih =>
    have ih' := ih (fun x hx => hnames x (List.mem_cons_of_mem e hx))
      fun x hx => hvalues x (List.mem_cons_of_mem e hx)
    rw [List.cons_append, Doc.ofMembers, check, Doc.name, ok_bind,
      find?_table_eq_none (hnames e List.mem_cons_self)]
    show (unknown depth (Doc.ofValue e.2) >>= _) = _
    rw [hvalues e List.mem_cons_self, ok_bind, ih']

/-- A member that its field reads is checked and marked as seen. -/
theorem check_of_known {name : String} {names : List String} {q : Reader Unit} {d : Doc}
    (hfind : table.find? (fun entry => entry.1.contains name) = some (names, q))
    (hseen : names.headD "" ∉ seen) (hread : q depth d = .ok ()) (rest : List (Doc × Doc)) :
    check table unknown depth seen ((.string name, d) :: rest) =
      check table unknown depth (names.headD "" :: seen) rest := by
  have hcontains : seen.contains (names.headD "") = false :=
    Bool.eq_false_iff.mpr fun h => hseen (List.contains_iff_mem.mp h)
  rw [check, Doc.name, ok_bind, hfind]
  simp only [hcontains, Bool.false_eq_true, if_false, hread, ok_bind]

theorem FieldWrites.check_eq (h : FieldWrites names missing r m a)
    (table more : List (List String × Reader Unit)) (unknown : Unknown)
    (htable : ∀ name ∈ names, name ∉ table.flatMap Prod.fst) (hseen : ∀ p ∈ seen, p ∉ names)
    (hdepth : ∀ e ∈ m, e.2.nesting ≤ depth) (post : List (String × Value)) :
    ∃ met, (∀ p ∈ met, p ∈ names) ∧
      check (table ++ (field names missing r).table ++ more) unknown depth seen
        (Doc.ofMembers (m ++ post)) =
      check (table ++ (field names missing r).table ++ more) unknown depth (met ++ seen)
        (Doc.ofMembers post) := by
  cases h with
  | omitted h => exact ⟨[], List.forall_mem_nil _, rfl⟩
  | @member name v a hname h =>
    have hhead : names.headD "" ∈ names := by
      cases names with
      | nil => exact nomatch hname
      | cons n ns => exact List.mem_cons_self
    refine ⟨[names.headD ""], fun p hp => List.mem_singleton.mp hp ▸ hhead, ?_⟩
    refine check_of_known (q := fun depth d => (r depth d).map fun _ => ()) ?_
      (fun hmem => hseen _ hmem hhead) ?_ _
    · rw [List.append_assoc, List.find?_append, find?_table_eq_none (htable name hname),
        Option.none_or]
      exact List.find?_cons_of_pos (List.contains_iff_mem.mpr hname)
    · rw [h.reads (hdepth _ List.mem_cons_self)]
      rfl

/-- The fields check what was written for them, each once. -/
theorem Writes.check_eq (h : Writes fields l a) (hnodup : fields.names.Nodup)
    (more : List (List String × Reader Unit)) (unknown : Unknown)
    (hseen : ∀ p ∈ seen, p ∉ fields.names) (hdepth : ∀ e ∈ l, e.2.nesting ≤ depth)
    (post : List (String × Value)) :
    ∃ met, (∀ p ∈ met, p ∈ fields.names) ∧
      check (fields.table ++ more) unknown depth seen (Doc.ofMembers (l ++ post)) =
        check (fields.table ++ more) unknown depth (met ++ seen) (Doc.ofMembers post) := by
  induction h generalizing more post with
  | pure a => exact ⟨[], List.forall_mem_nil _, rfl⟩
  | @and α β f l g names missing r m a hf hx ih =>
    rw [names_and] at hnodup hseen
    obtain ⟨hleft, -, hapart⟩ := List.nodup_append.mp hnodup
    -- Only fields that were gone through have been met, so the next one is met for the first time.
    obtain ⟨met, hmet, hcheck⟩ := ih hleft ((field names missing r).table ++ more)
      (fun p hp hmem => hseen p hp (List.mem_append_left _ hmem))
      (fun e he => hdepth e (List.mem_append_left _ he)) (m ++ post)
    have hseen' : ∀ p ∈ met ++ seen, p ∉ names := by
      intro p hp hmem
      rcases List.mem_append.mp hp with hp | hp
      · exact hapart _ (hmet p hp) _ hmem rfl
      · exact hseen p hp (List.mem_append_right _ hmem)
    obtain ⟨met', hmet', hcheck'⟩ := hx.check_eq f.table more unknown
      (fun name hname hmem => hapart _ hmem _ hname rfl) hseen'
      (fun e he => hdepth e (List.mem_append_right _ he)) post
    refine ⟨met' ++ met, fun p hp => ?_, ?_⟩
    · rw [names_and]
      rcases List.mem_append.mp hp with hp | hp
      · exact List.mem_append_right _ (hmet' p hp)
      · exact List.mem_append_left _ (hmet p hp)
    · rw [← List.append_assoc] at hcheck
      rw [List.append_assoc, List.append_assoc]
      exact hcheck.trans hcheck'

end Check

/-! ### Records -/

theorem Writes.check_table (h : Writes fields l a) (hnodup : fields.names.Nodup)
    (unknown : Unknown) (hdepth : ∀ e ∈ l, e.2.nesting ≤ depth) :
    check fields.table unknown depth [] (Doc.ofMembers l) = .ok () := by
  obtain ⟨met, -, hcheck⟩ := h.check_eq hnodup [] unknown (List.forall_mem_nil _) hdepth []
  rwa [List.append_nil, List.append_nil] at hcheck

theorem Writes.pick_named (h : Writes fields l a) (hnodup : fields.names.Nodup)
    (pre : List (String × Value)) (hpre : ∀ e ∈ pre, e.1 ∉ fields.names)
    (hdepth : ∀ e ∈ l, e.2.nesting ≤ depth) :
    fields.pick depth (Doc.named (Doc.ofMembers (pre ++ l))) = .ok a := by
  have hpick := h.pick_eq hnodup pre [] hpre (List.forall_mem_nil _) hdepth
  rwa [List.append_nil, ← named_ofMembers] at hpick

/-- **A record is restored** from its members if no two of its fields share a name. -/
theorem restores_record (h : Writes fields l a) (hnodup : fields.names.Nodup)
    {members : List (String × Value)} (hmembers : l = members) (name : String) :
    Restores (record name fields) (.object members) a := by
  subst hmembers
  refine ⟨.object h.isWhole, fun {depth} hdepth => ?_⟩
  rw [Value.nesting] at hdepth
  obtain ⟨inside, hroom, henter⟩ := Value.exists_enter hdepth
  have hinside : ∀ e ∈ l, e.2.nesting ≤ inside := fun e he =>
    Nat.le_trans (Value.nesting_le_of_mem_members he) hroom
  have hpick := h.pick_named hnodup [] (List.forall_mem_nil _) hinside
  rw [Doc.ofValue, record, henter, ok_bind, h.check_table hnodup passedOver hinside, ok_bind,
    atEnd, ok_bind]
  exact hpick

theorem filter_ofMembers_eq_self {p : Doc × Doc → Bool}
    (h : ∀ e ∈ l, p (.string e.1, Doc.ofValue e.2) = true) :
    (Doc.ofMembers l).filter p = Doc.ofMembers l := by
  induction l with
  | nil => rfl
  | cons e l ih =>
    rw [Doc.ofMembers, List.filter_cons_of_pos (h e List.mem_cons_self),
      ih fun x hx => h x (List.mem_cons_of_mem e hx)]

theorem filter_ofMembers_eq_nil {p : Doc × Doc → Bool}
    (h : ∀ e ∈ l, p (.string e.1, Doc.ofValue e.2) = false) :
    (Doc.ofMembers l).filter p = [] := by
  induction l with
  | nil => rfl
  | cons e l ih =>
    rw [Doc.ofMembers, List.filter_cons_of_neg (Bool.not_eq_true _ ▸ h e List.mem_cons_self),
      ih fun x hx => h x (List.mem_cons_of_mem e hx)]

theorem ofMembers_append (l m : List (String × Value)) :
    Doc.ofMembers (l ++ m) = Doc.ofMembers l ++ Doc.ofMembers m := by
  induction l with
  | nil => rfl
  | cons e l ih => rw [List.cons_append, Doc.ofMembers, Doc.ofMembers, ih, List.cons_append]

/-- Of the members of two records those of the first are taken, if that is what is asked for. -/
theorem filter_ofMembers {p : Doc × Doc → Bool}
    (hm : ∀ e ∈ m, p (.string e.1, Doc.ofValue e.2) = true)
    (hl : ∀ e ∈ l, p (.string e.1, Doc.ofValue e.2) = false) :
    (Doc.ofMembers (m ++ l)).filter p = Doc.ofMembers m := by
  rw [ofMembers_append, List.filter_append, filter_ofMembers_eq_self hm,
    filter_ofMembers_eq_nil hl, List.append_nil]

theorem any_contains {table : List (List String × Reader Unit)} {name : String} :
    table.any (fun entry => entry.1.contains name) = true ↔ name ∈ table.flatMap Prod.fst := by
  rw [List.any_eq_true, List.mem_flatMap]
  simp only [List.contains_iff_mem]

/-- **A record with the fields of another one beside its own is restored** if no two of all these
fields share a name. -/
theorem restores_recordWith {own : Fields (β → α)} {inner : Fields β} {g : β → α} {b : β}
    (hown : Writes own l g) (hinner : Writes inner m b)
    (hnodup : (inner.names ++ own.names).Nodup) (name : String) :
    Restores (recordWith name own inner) (.object (m ++ l)) (g b) := by
  obtain ⟨hinnerNames, hownNames, hapart⟩ := List.nodup_append.mp hnodup
  refine ⟨.object fun e he => ?_, fun {depth} hdepth => ?_⟩
  · rcases List.mem_append.mp he with he | he
    · exact hinner.isWhole e he
    · exact hown.isWhole e he
  rw [Value.nesting] at hdepth
  obtain ⟨inside, hroom, henter⟩ := Value.exists_enter hdepth
  have hinside : ∀ e ∈ m ++ l, e.2.nesting ≤ inside := fun e he =>
    Nat.le_trans (Value.nesting_le_of_mem_members he) hroom
  have hinsideInner : ∀ e ∈ m, e.2.nesting ≤ inside := fun e he =>
    hinside e (List.mem_append_left _ he)
  have hinsideOwn : ∀ e ∈ l, e.2.nesting ≤ inside := fun e he =>
    hinside e (List.mem_append_right _ he)
  have hforeign : ∀ e ∈ m, e.1 ∉ own.names := fun e he hmem =>
    hapart _ (hinner.mem_names e he) _ hmem rfl
  -- The members of the other record are unknown, and they are kept for it.
  have hkept : ∀ e ∈ m, kept inside (Doc.ofValue e.2) = .ok () := by
    intro e he
    obtain ⟨w, hw⟩ := exists_value (hinner.isWhole e he) (hinsideInner e he)
    rw [kept, hw]
    rfl
  have hcheck : check own.table kept inside [] (Doc.ofMembers (m ++ l)) = .ok () := by
    rw [check_of_unknown hforeign hkept l, hown.check_table hownNames kept hinsideOwn]
  have hknown : ∀ e ∈ l, (own.table.any fun entry => entry.1.contains e.1) = true :=
    fun e he => any_contains.mpr (hown.mem_names e he)
  have hunknown : ∀ e ∈ m, (own.table.any fun entry => entry.1.contains e.1) = false :=
    fun e he => Bool.eq_false_iff.mpr (mt any_contains.mp (hforeign e he))
  have hpickOwn := hown.pick_named hownNames m hforeign hinsideOwn
  have hpickInner := hinner.pick_named hinnerNames [] (List.forall_mem_nil _)
    hinsideInner
  rw [List.nil_append] at hpickInner
  rw [Doc.ofValue, recordWith, henter, ok_bind, hcheck, ok_bind, atEnd, ok_bind, hpickOwn,
    ok_bind]
  simp only
  rw [filter_ofMembers (m := m) (l := l) (fun e he => congrArg not (hunknown e he))
      (fun e he => congrArg not (hknown e he)),
    hinner.check_table hinnerNames passedOver hinsideInner, ok_bind, hpickInner]
  rfl

end WalletApi.Json.Fields
