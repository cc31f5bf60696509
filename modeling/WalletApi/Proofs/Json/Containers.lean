import WalletApi.Proofs.Json.Restoring
import WalletApi.Proofs.Lists

/-!
# Arrays and objects taken apart

A list is read from an array exactly when each item is read, and a map from an object exactly when
each member is; both times the array or the object has to be closed, and there has to be room
inside. Free-form data is read as the list of its items or as the map of its members, so that it is
taken apart in the same way. The one thing to know besides is that whatever can be read can also be
passed over (`WalletApi.Json.Reader.skipFault_of_value`): a member that nobody asks for may hold any
value that somebody could ask for.
-/

namespace WalletApi.Json

variable {α : Type}

theorem atEnd_eq_ok_iff {close : Option Fault} : atEnd close = .ok () ↔ close = none := by
  cases close with
  | none => exact ⟨fun _ => rfl, fun _ => rfl⟩
  | some fault =>
    refine ⟨fun h => ?_, fun h => ?_⟩
    · cases h
    · cases h

/-! ### Passing over a value -/

namespace Doc

variable {d : Doc} {l : List Doc} {ms : List (Doc × Doc)} {close : Option Fault}

theorem skipItems_eq_none_iff :
    skipItems l close = none ↔ (∀ d ∈ l, d.skipFault = none) ∧ close = none := by
  induction l with
  | nil => simp [skipItems]
  | cons d l ih =>
    rw [skipItems, List.forall_mem_cons, and_assoc, ← ih]
    cases d.skipFault with
    | none => simp
    | some fault => simp

/-- Each member is passed over on its own. -/
theorem skipMembers_eq_none_iff :
    skipMembers ms close = none ↔
      (∀ m ∈ ms, skipMembers [m] none = none) ∧ close = none := by
  induction ms with
  | nil => simp [skipMembers]
  | cons m ms ih =>
    rw [List.forall_mem_cons, and_assoc, ← ih]
    obtain ⟨k, d⟩ := m
    simp only [skipMembers]
    split
    · simp
    · split
      · simp
      · simp

/-- A member is passed over by its key and then its value. -/
theorem skipMembers_singleton_eq_none_iff {k : Doc} :
    skipMembers [(k, d)] none = none ↔
      skipMembers [(k, .null)] none = none ∧ d.skipFault = none := by
  simp only [skipMembers]
  split
  · simp
  · cases d.skipFault with
    | none => simp [skipFault]
    | some fault => simp

end Doc

/-! ### Lists and maps -/

namespace Reader

variable {r : Reader α} {depth : ℕ} {e : ReadError}

theorem readItems_eq_ok_iff {l : List Doc} {as : List α} :
    readItems r depth l = .ok as ↔ List.Forall₂ (fun d a => r depth d = .ok a) l as := by
  induction l generalizing as with
  | nil =>
    rw [readItems, List.forall₂_nil_left_iff]
    exact ⟨fun h => (Except.ok.inj h).symm, fun h => congrArg _ h.symm⟩
  | cons d l ih =>
    rw [readItems, bind_eq_ok, List.forall₂_cons_left_iff]
    constructor
    · rintro ⟨a, ha, h⟩
      obtain ⟨rest, hrest, h⟩ := bind_eq_ok.mp h
      exact ⟨a, rest, ha, ih.mp hrest, (Except.ok.inj h).symm⟩
    · rintro ⟨a, rest, ha, hrest, rfl⟩
      exact ⟨a, ha, bind_eq_ok.mpr ⟨rest, ih.mpr hrest, rfl⟩⟩

theorem name_eq_ok_iff {k : Doc} {s : String} : k.name = .ok s ↔ k = .string s := by
  cases k with
  | string t =>
    exact ⟨fun h => congrArg _ (Except.ok.inj h), fun h => congrArg _ (Doc.string.inj h)⟩
  | _ =>
    refine ⟨fun h => ?_, fun h => ?_⟩
    · cases h
    · cases h

/-- A member that is read as an entry of a map. -/
def ReadsMember (r : Reader α) (depth : ℕ) (m : Doc × Doc) (e : String × α) : Prop :=
  m.1 = .string e.1 ∧ r depth m.2 = .ok e.2

theorem readMembers_eq_ok_iff {ms : List (Doc × Doc)} {es : List (String × α)} :
    readMembers r depth ms = .ok es ↔ List.Forall₂ (ReadsMember r depth) ms es := by
  induction ms generalizing es with
  | nil =>
    rw [readMembers, List.forall₂_nil_left_iff]
    exact ⟨fun h => (Except.ok.inj h).symm, fun h => congrArg _ h.symm⟩
  | cons m ms ih =>
    obtain ⟨k, d⟩ := m
    rw [readMembers, bind_eq_ok, List.forall₂_cons_left_iff]
    constructor
    · rintro ⟨s, hs, h⟩
      obtain ⟨a, ha, h⟩ := bind_eq_ok.mp h
      obtain ⟨rest, hrest, h⟩ := bind_eq_ok.mp h
      exact ⟨(s, a), rest, ⟨name_eq_ok_iff.mp hs, ha⟩, ih.mp hrest, (Except.ok.inj h).symm⟩
    · rintro ⟨⟨s, a⟩, rest, ⟨hk, ha⟩, hrest, rfl⟩
      refine ⟨s, name_eq_ok_iff.mpr hk, bind_eq_ok.mpr ⟨a, ha, ?_⟩⟩
      exact bind_eq_ok.mpr ⟨rest, ih.mpr hrest, rfl⟩

theorem readItems_eq_error {l : List Doc} (h : readItems r depth l = .error e) :
    ∃ d ∈ l, r depth d = .error e := by
  induction l with
  | nil => cases h
  | cons d l ih =>
    rcases bind_eq_error.mp h with h | ⟨a, -, h⟩
    · exact ⟨d, List.mem_cons_self, h⟩
    · rcases bind_eq_error.mp h with h | ⟨as, -, h⟩
      · obtain ⟨d', hd', h⟩ := ih h
        exact ⟨d', List.mem_cons_of_mem d hd', h⟩
      · cases h

theorem readMembers_eq_error {ms : List (Doc × Doc)} (hkeys : ∀ m ∈ ms, ∃ s, m.1 = .string s)
    (h : readMembers r depth ms = .error e) : ∃ m ∈ ms, r depth m.2 = .error e := by
  induction ms with
  | nil => cases h
  | cons m ms ih =>
    obtain ⟨k, d⟩ := m
    obtain ⟨⟨s, rfl⟩, hrest⟩ := List.forall_mem_cons.mp hkeys
    rcases bind_eq_error.mp h with h | ⟨name, -, h⟩
    · cases h
    rcases bind_eq_error.mp h with h | ⟨a, -, h⟩
    · exact ⟨_, List.mem_cons_self, h⟩
    rcases bind_eq_error.mp h with h | ⟨es, -, h⟩
    · obtain ⟨m, hm, h⟩ := ih hrest h
      exact ⟨m, List.mem_cons_of_mem _ hm, h⟩
    · cases h

theorem list_array_eq_ok_iff {l : List Doc} {close : Option Fault} {as : List α} :
    Reader.list r depth (.array l close) = .ok as ↔ close = none ∧
      ∃ inside, enter depth = .ok inside ∧ readItems r inside l = .ok as := by
  constructor
  · intro h
    obtain ⟨inside, henter, h⟩ := bind_eq_ok.mp h
    obtain ⟨bs, hbs, h⟩ := bind_eq_ok.mp h
    obtain ⟨⟨⟩, hclose, h⟩ := bind_eq_ok.mp h
    obtain rfl := Except.ok.inj h
    exact ⟨atEnd_eq_ok_iff.mp hclose, inside, henter, hbs⟩
  · rintro ⟨rfl, inside, henter, has⟩
    rw [Reader.list, henter, ok_bind, has]
    rfl

theorem map_object_eq_ok_iff {ms : List (Doc × Doc)} {close : Option Fault} {m : SortedMap α} :
    Reader.map r depth (.object ms close) = .ok m ↔ close = none ∧
      ∃ inside es, enter depth = .ok inside ∧ readMembers r inside ms = .ok es ∧
        SortedMap.ofList es = m := by
  constructor
  · intro h
    obtain ⟨inside, henter, h⟩ := bind_eq_ok.mp h
    obtain ⟨es, hes, h⟩ := bind_eq_ok.mp h
    obtain ⟨⟨⟩, hclose, h⟩ := bind_eq_ok.mp h
    exact ⟨atEnd_eq_ok_iff.mp hclose, inside, es, henter, hes, Except.ok.inj h⟩
  · rintro ⟨rfl, inside, es, henter, hes, rfl⟩
    rw [Reader.map, henter, ok_bind, hes]
    rfl

/-! ### Any value -/

/-- A value can be passed over if the values in it can, at the depth inside. -/
theorem skipFault_eq_none_of_inside {d : Doc} {v : Value}
    (hr : ∀ {inside : ℕ} {d : Doc} {v : Value}, enter depth = .ok inside →
      value inside d = .ok v → d.skipFault = none)
    (h : value depth d = .ok v) : d.skipFault = none := by
  cases d with
  | array l close =>
    rw [value_array_eq] at h
    obtain ⟨vs, hvs, rfl⟩ := map_eq_ok.mp h
    obtain ⟨rfl, inside, henter, hvs⟩ := list_array_eq_ok_iff.mp hvs
    refine Doc.skipItems_eq_none_iff.mpr ⟨fun e he => ?_, rfl⟩
    obtain ⟨w, -, hw⟩ := exists_of_forall₂ (readItems_eq_ok_iff.mp hvs) he
    exact hr henter hw
  | object ms close =>
    rw [value_object_eq] at h
    obtain ⟨m, hm, rfl⟩ := map_eq_ok.mp h
    obtain ⟨rfl, inside, es, henter, hes, rfl⟩ := map_object_eq_ok_iff.mp hm
    refine Doc.skipMembers_eq_none_iff.mpr ⟨fun m hm => ?_, rfl⟩
    obtain ⟨e, -, hkey, hread⟩ := exists_of_forall₂ (readMembers_eq_ok_iff.mp hes) hm
    obtain ⟨k, d⟩ := m
    subst hkey
    exact Doc.skipMembers_singleton_eq_none_iff.mpr ⟨rfl, hr henter hread⟩
  | defect opening read skip => cases h
  | _ => rfl

/-- **What can be read can be passed over.** -/
theorem skipFault_of_value {d : Doc} {v : Value} (h : value depth d = .ok v) :
    d.skipFault = none := by
  induction depth generalizing d v with
  | zero =>
    refine skipFault_eq_none_of_inside (fun henter => ?_) h
    cases henter
  | succ depth ih =>
    refine skipFault_eq_none_of_inside (fun henter hinside => ?_) h
    obtain rfl := Except.ok.inj henter
    exact ih hinside

end Reader

/-! ### Unknown members -/

namespace Fields

/-- A member that is passed over may hold any JSON value, however deep it is read. -/
theorem passedOver_of_value {depth inside : ℕ} {d : Doc} {v : Value}
    (h : Reader.value inside d = .ok v) : passedOver depth d = .ok () :=
  atEnd_eq_ok_iff.mpr (Reader.skipFault_of_value h)

/-- A member that is kept may hold any JSON value that is read there. -/
theorem kept_of_value {depth : ℕ} {d : Doc} {v : Value} (h : Reader.value depth d = .ok v) :
    kept depth d = .ok () :=
  map_eq_ok.mpr ⟨v, h, rfl⟩

end Fields

end WalletApi.Json
