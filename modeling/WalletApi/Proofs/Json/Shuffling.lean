import WalletApi.Proofs.Json.Rearranging
import WalletApi.Proofs.Json.Revising

/-!
# Reading does not depend on the order of members

Every reader gives the same value for a document and for a rearrangement of it, as long as no object
of the document has a key twice. What is proved of each reader is that it keeps its answers between
the two (`WalletApi.Json.Reader.Respects`), and the readers are gone through as they are built: the
ones that only read documents without any others inside have nothing to prove, a list and a map ask
it of the reader of their entries, and a record asks it of the readers of its fields and then
follows from the revision of its members. Free-form data is read by one recursion over all
documents, which is followed by the depth that is left.
-/

namespace WalletApi.Json

open Doc (Shuffles)

variable {α β : Type}

namespace Reader

variable {r : Reader α} {depth : ℕ}

/-! ### Plain values -/

/-- A reader that refuses all documents with others inside meets no order. -/
theorem Respects.of_refuses
    (harray : ∀ depth l close, ∃ e, r depth (.array l close) = .error e)
    (hobject : ∀ depth ms close, ∃ e, r depth (.object ms close) = .error e) :
    r.Respects Shuffles := by
  refine ⟨fun {depth d d' a} hd h => ?_⟩
  cases d with
  | array l close =>
    obtain ⟨e, he⟩ := harray depth l close
    cases he.symm.trans h
  | object ms close =>
    obtain ⟨e, he⟩ := hobject depth ms close
    cases he.symm.trans h
  | _ =>
    rw [hd.eq_of_isLeaf trivial]
    exact h

theorem Respects.map {S : Doc → Doc → Prop} (hr : r.Respects S) (f : α → β) :
    Reader.Respects (fun depth d => (r depth d).map f) S := by
  refine ⟨fun hd h => ?_⟩
  obtain ⟨a, ha, rfl⟩ := map_eq_ok.mp h
  exact map_eq_ok.mpr ⟨a, hr.reads hd ha, rfl⟩

theorem respects_string : Reader.string.Respects Shuffles :=
  .of_refuses (fun _ _ _ => ⟨_, rfl⟩) fun _ _ _ => ⟨_, rfl⟩

theorem respects_bool : Reader.bool.Respects Shuffles :=
  .of_refuses (fun _ _ _ => ⟨_, rfl⟩) fun _ _ _ => ⟨_, rfl⟩

theorem respects_integer (low high : ℤ) (range : String) :
    (Reader.integer low high range).Respects Shuffles :=
  .of_refuses (fun _ _ _ => ⟨_, rfl⟩) fun _ _ _ => ⟨_, rfl⟩

theorem respects_parsed (parse : String → Except String α) (expected : String) :
    (Reader.parsed parse expected).Respects Shuffles :=
  .of_refuses (fun _ _ _ => ⟨_, rfl⟩) fun _ _ _ => ⟨_, rfl⟩

theorem respects_u32 : Reader.u32.Respects Shuffles := (respects_integer _ _ _).map _

theorem respects_u64 : Reader.u64.Respects Shuffles := (respects_integer _ _ _).map _

theorem respects_i64 : Reader.i64.Respects Shuffles := respects_integer _ _ _

theorem Respects.optional (hr : r.Respects Shuffles) : (Reader.optional r).Respects Shuffles := by
  refine ⟨fun {depth d d' o} hd h => ?_⟩
  cases d with
  | array items close =>
    obtain ⟨items', rfl, -⟩ := hd.array_cases
    exact (hr.map some).reads hd h
  | object members close =>
    obtain ⟨mid, members', rfl, -⟩ := hd.object_cases
    exact (hr.map some).reads hd h
  | _ =>
    rw [hd.eq_of_isLeaf trivial]
    exact h

/-! ### Lists and maps -/

/-- The items of an array are read as before if each of them is. -/
theorem readItems_of_related {S : Doc → Doc → Prop} {l l' : List Doc} {as : List α}
    (hr : ∀ {d d' : Doc} {a : α}, S d d' → r depth d = .ok a → r depth d' = .ok a)
    (hl : List.Forall₂ S l l') (h : readItems r depth l = .ok as) :
    readItems r depth l' = .ok as := by
  rw [readItems_eq_ok_iff] at h ⊢
  induction hl generalizing as with
  | nil => exact h
  | cons hd _ ih =>
    cases h with
    | cons ha has => exact .cons (hr hd ha) (ih has)

/-- The members of an object are read as the same entries, in another order, if the value of each of
them is read as before. -/
theorem readMembers_of_shuffles {ms mid ms' : List (Doc × Doc)} {es : List (String × α)}
    (hr : ∀ {d d' : Doc} {a : α}, Shuffles d d' → r depth d = .ok a → r depth d' = .ok a)
    (hmid : List.Forall₂ (Doc.Alike Shuffles) ms mid) (hperm : mid.Perm ms')
    (h : readMembers r depth ms = .ok es) :
    ∃ es', readMembers r depth ms' = .ok es' ∧ es.Perm es' := by
  rw [readMembers_eq_ok_iff] at h
  have hread : List.Forall₂ (ReadsMember r depth) mid es := by
    clear hperm
    induction hmid generalizing es with
    | nil => exact h
    | cons hm _ ih =>
      cases h with
      | cons he hes => exact .cons ⟨hm.1.trans he.1, hr hm.2 he.2⟩ (ih hes)
  obtain ⟨es', hes', hsame⟩ := List.perm_comp_forall₂ hperm.symm hread
  exact ⟨es', readMembers_eq_ok_iff.mpr hes', hsame.symm⟩

/-- Entries have the keys of their members. -/
theorem nodup_keys_of_readMembers {ms : List (Doc × Doc)} {es : List (String × α)}
    (hkeys : (ms.map Prod.fst).Nodup) (h : readMembers r depth ms = .ok es) :
    (es.map Prod.fst).Nodup := by
  have hmap : ms.map Prod.fst = (es.map Prod.fst).map Doc.string := by
    rw [readMembers_eq_ok_iff] at h
    induction h with
    | nil => rfl
    | cons he _ ih => rw [List.map_cons, List.map_cons, List.map_cons, he.1, ih hkeys.of_cons]
  rw [hmap] at hkeys
  exact hkeys.of_map _

/-- An array is read as before if its items are, at the depth inside. -/
theorem list_of_shuffles {l : List Doc} {close : Option Fault} {d' : Doc} {as : List α}
    (hr : ∀ {inside : ℕ} {d d' : Doc} {a : α}, enter depth = .ok inside → Shuffles d d' →
      r inside d = .ok a → r inside d' = .ok a)
    (hd : Shuffles (.array l close) d') (h : Reader.list r depth (.array l close) = .ok as) :
    Reader.list r depth d' = .ok as := by
  obtain ⟨l', rfl, hl⟩ := hd.array_cases
  obtain ⟨hclose, inside, henter, has⟩ := list_array_eq_ok_iff.mp h
  have has' := readItems_of_related (hr henter) hl has
  exact list_array_eq_ok_iff.mpr ⟨hclose, inside, henter, has'⟩

/-- An object is read as the same map if the values of its members are read as before, at the depth
inside. -/
theorem map_of_shuffles {ms : List (Doc × Doc)} {close : Option Fault} {d' : Doc} {m : SortedMap α}
    (hr : ∀ {inside : ℕ} {d d' : Doc} {a : α}, enter depth = .ok inside → Shuffles d d' →
      r inside d = .ok a → r inside d' = .ok a)
    (hd : Shuffles (.object ms close) d') (h : Reader.map r depth (.object ms close) = .ok m) :
    Reader.map r depth d' = .ok m := by
  obtain ⟨mid, ms', rfl, hkeys, hmid, hperm⟩ := hd.object_cases
  obtain ⟨hclose, inside, es, henter, hes, rfl⟩ := map_object_eq_ok_iff.mp h
  obtain ⟨es', hes', hsame⟩ := readMembers_of_shuffles (hr henter) hmid hperm hes
  have heq := SortedMap.ofList_eq_of_perm (nodup_keys_of_readMembers hkeys hes) hsame
  exact map_object_eq_ok_iff.mpr ⟨hclose, inside, es', henter, hes', heq.symm⟩

theorem Respects.list (hr : r.Respects Shuffles) : (Reader.list r).Respects Shuffles := by
  refine ⟨fun {depth d d' as} hd h => ?_⟩
  cases d with
  | array l close => exact list_of_shuffles (fun _ => hr.reads) hd h
  | _ => cases h

theorem Respects.sortedMap (hr : r.Respects Shuffles) : (Reader.map r).Respects Shuffles := by
  refine ⟨fun {depth d d' m} hd h => ?_⟩
  cases d with
  | object ms close => exact map_of_shuffles (fun _ => hr.reads) hd h
  | _ => cases h

/-! ### Any value -/

/-- A value is read as before if the values in it are, at the depth inside. -/
theorem value_of_shuffles {d d' : Doc} {v : Value}
    (hr : ∀ {inside : ℕ} {d d' : Doc} {v : Value}, enter depth = .ok inside → Shuffles d d' →
      value inside d = .ok v → value inside d' = .ok v)
    (hd : Shuffles d d') (h : value depth d = .ok v) : value depth d' = .ok v := by
  cases d with
  | array l close =>
    rw [value_array_eq] at h
    obtain ⟨vs, hvs, rfl⟩ := map_eq_ok.mp h
    have hvs' := list_of_shuffles hr hd hvs
    obtain ⟨l', rfl, -⟩ := hd.array_cases
    rw [value_array_eq, hvs']
    rfl
  | object ms close =>
    rw [value_object_eq] at h
    obtain ⟨m, hm, rfl⟩ := map_eq_ok.mp h
    have hm' := map_of_shuffles hr hd hm
    obtain ⟨mid, ms', rfl, -⟩ := hd.object_cases
    rw [value_object_eq, metadata, hm']
    rfl
  | _ =>
    rw [hd.eq_of_isLeaf trivial]
    exact h

/-- **Any value is read as before**, whatever the order of the members in it. -/
theorem respects_value : Respects value Shuffles := by
  refine ⟨fun {depth} => ?_⟩
  induction depth with
  | zero =>
    refine value_of_shuffles fun henter => ?_
    cases henter
  | succ depth ih =>
    refine value_of_shuffles fun henter => ?_
    obtain rfl := Except.ok.inj henter
    exact ih

theorem respects_metadata : metadata.Respects Shuffles := respects_value.sortedMap

/-! ### Choices -/

/-- An object that is read as a choice has a single member, with nothing in it to reorder. -/
theorem choice_object_cases {known : List (String × α)} {other : Option α}
    {ms : List (Doc × Doc)} {close : Option Fault} {a : α}
    (h : choice known other depth (.object ms close) = .ok a) : ∃ k, ms = [(k, .null)] := by
  obtain ⟨-, -, h⟩ := bind_eq_ok.mp h
  cases ms with
  | nil => cases h
  | cons m rest =>
    obtain ⟨k, d⟩ := m
    cases k with
    | string name =>
      obtain ⟨chosen, -, h⟩ := bind_eq_ok.mp h
      obtain ⟨b, -, h⟩ := bind_eq_ok.mp h
      cases d with
      | null =>
        cases rest with
        | nil => exact ⟨.string name, rfl⟩
        | cons m rest => cases h
      | _ => cases h
    | _ => cases h

theorem respects_choice (known : List (String × α)) (other : Option α) :
    (choice known other).Respects Shuffles := by
  refine ⟨fun {depth d d' a} hd h => ?_⟩
  cases d with
  | array l close => cases h
  | object ms close =>
    obtain ⟨mid, ms', rfl, -, hmid, hperm⟩ := hd.object_cases
    obtain ⟨k, rfl⟩ := choice_object_cases h
    have hmid' : mid = [(k, .null)] := by
      cases hmid with
      | cons hm hnil =>
        cases hnil
        exact congrArg (· :: []) (Prod.ext hm.1 (hm.2.eq_of_isLeaf trivial))
    subst hmid'
    rw [List.singleton_perm.mp hperm] at h
    exact h
  | _ =>
    rw [hd.eq_of_isLeaf trivial]
    exact h

end Reader

/-! ### Records -/

namespace Fields

theorem passedOver_of_shuffles {depth : ℕ} {d d' : Doc} (hd : Shuffles d d')
    (h : passedOver depth d = .ok ()) : passedOver depth d' = .ok () :=
  atEnd_eq_ok_iff.mpr (hd.rearranges.skipFault_eq_none (atEnd_eq_ok_iff.mp h))

theorem kept_of_shuffles {depth : ℕ} {d d' : Doc} (hd : Shuffles d d')
    (h : kept depth d = .ok ()) : kept depth d' = .ok () := by
  obtain ⟨v, hv, -⟩ := map_eq_ok.mp h
  exact map_eq_ok.mpr ⟨v, Reader.respects_value.reads hd hv, rfl⟩

/-- A member with the same key and a rearranged value is a revised one. -/
theorem Keeps.of_alike {table : List (List String × Reader Unit)} {unknown : Unknown} {depth : ℕ}
    {m m' : Doc × Doc} (hm : Doc.Alike Shuffles m m')
    (hunknown : ∀ {d d' : Doc}, Shuffles d d' → unknown depth d = .ok () →
      unknown depth d' = .ok ()) :
    Keeps (fun _ => Shuffles) table unknown depth m m' where
  named := by rw [hm.1]
  entry := by rw [fieldOf, fieldOf, hm.1]
  value := fun _ _ => hm.2
  unknown := fun _ => hunknown hm.2

/-- **A record is read as before**, whatever the order of its members and of those inside. -/
theorem respects_record {fields : Fields α} (name : String)
    (hfields : fields.Respects fun _ => Shuffles) (hnames : fields.names.Nodup) :
    (record name fields).Respects Shuffles := by
  refine ⟨fun {depth d d' a} hd h => ?_⟩
  cases d with
  | object ms close =>
    obtain ⟨mid, ms', rfl, -, hmid, hperm⟩ := hd.object_cases
    refine record_of_revised hfields hnames (fun inside => ?_) h
    refine ⟨hmid.imp fun _ _ hm => Keeps.of_alike hm passedOver_of_shuffles,
      List.forall_mem_nil _, ?_⟩
    rwa [List.append_nil]
  | array l close =>
    obtain ⟨l', rfl, hl⟩ := hd.array_cases
    obtain ⟨inside, henter, h⟩ := bind_eq_ok.mp h
    obtain ⟨⟨b, t⟩, htake, h⟩ := bind_eq_ok.mp h
    obtain ⟨rest, hrest, htake'⟩ := hfields.take_eq_ok hl htake
    have hempty : rest.isEmpty = t.items.isEmpty := by
      obtain ⟨left, close, taken, expected⟩ := t
      cases hrest <;> rfl
    refine bind_eq_ok.mpr ⟨inside, henter, bind_eq_ok.mpr ⟨_, htake', ?_⟩⟩
    simp only [hempty]
    exact h
  | _ => cases h

/-- **So is a record that holds the fields of another one** beside its own. -/
theorem respects_recordWith {own : Fields (β → α)} {inner : Fields β} (name : String)
    (hown : own.Respects fun _ => Shuffles) (hinner : inner.Respects fun _ => Shuffles)
    (hnames : (inner.names ++ own.names).Nodup) :
    (recordWith name own inner).Respects Shuffles := by
  refine ⟨fun {depth d d' a} hd h => ?_⟩
  cases d with
  | object ms close =>
    obtain ⟨mid, ms', rfl, -, hmid, hperm⟩ := hd.object_cases
    have hkept : ∀ inside, List.Forall₂ (fun m m' =>
        Keeps (fun _ => Shuffles) own.table kept inside m m' ∧
          Keeps (fun _ => Shuffles) inner.table passedOver inside m m') ms mid := fun inside =>
      hmid.imp fun _ _ hm => ⟨.of_alike hm kept_of_shuffles, .of_alike hm passedOver_of_shuffles⟩
    rw [← List.append_nil mid] at hperm
    exact recordWith_of_revised hown hinner hnames hkept (fun _ _ => List.forall_mem_nil _) hperm h
  | _ => cases h

end Fields

end WalletApi.Json
