/-!
# Maps sorted by key

A map from text to values as the list of its entries in rising order of keys. The order of strings
is that of their code points, which is also the order of their UTF-8 bytes. Main statements:

* `SortedMap.get?_insert_self` and `SortedMap.get?_insert_of_ne`: an insertion sets one key and
  leaves the others;
* `SortedMap.ofList_entries`: a map is rebuilt from its entries;
* `SortedMap.ofList_eq_of_perm`: a map of entries with distinct keys does not depend on their order.
-/

namespace WalletApi

/-- **A map sorted by key.** -/
structure SortedMap (α : Type) where
  entries : List (String × α)
  sorted : entries.Pairwise fun a b => a.1 < b.1

namespace SortedMap

variable {α : Type}

/-- The map without entries. -/
def empty : SortedMap α := ⟨[], List.Pairwise.nil⟩

instance : Inhabited (SortedMap α) := ⟨empty⟩

instance [BEq α] : BEq (SortedMap α) := ⟨fun m n => m.entries == n.entries⟩

/-- The map has no entries. -/
def isEmpty (m : SortedMap α) : Bool := m.entries.isEmpty

/-- An entry put in its place, instead of one with the same key. -/
def insertEntry (key : String) (value : α) : List (String × α) → List (String × α)
  | [] => [(key, value)]
  | (k, v) :: rest =>
    if key < k then (key, value) :: (k, v) :: rest
    else if key = k then (key, value) :: rest
    else (k, v) :: insertEntry key value rest

theorem mem_insertEntry {key : String} {value : α} {l : List (String × α)} {e : String × α}
    (h : e ∈ insertEntry key value l) : e = (key, value) ∨ e ∈ l := by
  induction l with
  | nil => simpa [insertEntry] using h
  | cons a rest ih =>
    obtain ⟨k, v⟩ := a
    unfold insertEntry at h
    split at h
    · simpa using h
    · split at h
      · rcases List.mem_cons.1 h with h | h
        · exact .inl h
        · exact .inr (List.mem_cons_of_mem _ h)
      · rcases List.mem_cons.1 h with h | h
        · exact .inr (h ▸ List.mem_cons_self)
        · rcases ih h with h | h
          · exact .inl h
          · exact .inr (List.mem_cons_of_mem _ h)

theorem sorted_insertEntry (key : String) (value : α) {l : List (String × α)}
    (hl : l.Pairwise fun a b => a.1 < b.1) :
    (insertEntry key value l).Pairwise fun a b => a.1 < b.1 := by
  induction l with
  | nil => simp [insertEntry]
  | cons a rest ih =>
    obtain ⟨k, v⟩ := a
    obtain ⟨hk, hrest⟩ := List.pairwise_cons.1 hl
    unfold insertEntry
    split
    · next hlt =>
      refine List.pairwise_cons.2 ⟨fun e he => ?_, hl⟩
      rcases List.mem_cons.1 he with rfl | he
      · exact hlt
      · exact String.lt_trans hlt (hk e he)
    · next hlt =>
      split
      · next heq => subst heq; exact List.pairwise_cons.2 ⟨hk, hrest⟩
      · next hne =>
        refine List.pairwise_cons.2 ⟨fun e he => ?_, ih hrest⟩
        rcases mem_insertEntry he with rfl | he
        · rcases Decidable.em (k < key) with h | h
          · exact h
          · exact absurd (String.le_antisymm (String.not_lt.1 h) (String.not_lt.1 hlt)) hne
        · exact hk e he

/-- The map with a value for a key. -/
def insert (m : SortedMap α) (key : String) (value : α) : SortedMap α :=
  ⟨insertEntry key value m.entries, sorted_insertEntry key value m.sorted⟩

/-- The value of a key. -/
def get? (m : SortedMap α) (key : String) : Option α := m.entries.lookup key

/-- The map of a list of entries, where the last one of a key wins. -/
def ofList (l : List (String × α)) : SortedMap α :=
  l.foldl (fun m e => m.insert e.1 e.2) empty

/-- A map holds no other entries than those that it is made of. -/
theorem mem_of_mem_ofList {l : List (String × α)} {e : String × α} (h : e ∈ (ofList l).entries) :
    e ∈ l := by
  -- What is put into a map that has entries already is told apart from these.
  have key : ∀ (rest : List (String × α)) (acc : SortedMap α),
      e ∈ (rest.foldl (fun m e => m.insert e.1 e.2) acc).entries → e ∈ rest ∨ e ∈ acc.entries := by
    intro rest
    induction rest with
    | nil => exact fun acc h => .inr h
    | cons a rest ih =>
      intro acc h
      rcases ih (acc.insert a.1 a.2) h with h | h
      · exact .inl (List.mem_cons_of_mem a h)
      · rcases mem_insertEntry h with rfl | h
        · exact .inl List.mem_cons_self
        · exact .inr h
  rcases key l empty h with h | h
  · exact h
  · exact absurd h List.not_mem_nil

theorem insertEntry_of_forall_lt {key : String} {value : α} {l : List (String × α)}
    (h : ∀ e ∈ l, e.1 < key) : insertEntry key value l = l ++ [(key, value)] := by
  induction l with
  | nil => rfl
  | cons a rest ih =>
    obtain ⟨k, v⟩ := a
    have hk : k < key := h (k, v) List.mem_cons_self
    have hnot : ¬ key < k := fun hlt => String.lt_irrefl k (String.lt_trans hk hlt)
    have hne : key ≠ k := fun heq => String.lt_irrefl k (heq ▸ hk)
    rw [insertEntry, if_neg hnot, if_neg hne, ih fun e he => h e (List.mem_cons_of_mem _ he)]
    rfl

theorem ext {m n : SortedMap α} (h : m.entries = n.entries) : m = n := by
  cases m; cases n; simp_all

/-- A map is rebuilt from its entries. -/
theorem ofList_entries (m : SortedMap α) : ofList m.entries = m := by
  obtain ⟨l, hl⟩ := m
  have key : ∀ (rest : List (String × α)) (acc : SortedMap α),
      (acc.entries ++ rest).Pairwise (fun a b => a.1 < b.1) →
      (rest.foldl (fun m e => m.insert e.1 e.2) acc).entries = acc.entries ++ rest := by
    intro rest
    induction rest with
    | nil => intro acc _; simp
    | cons e rest ih =>
      intro acc h
      have hlt : ∀ x ∈ acc.entries, x.1 < e.1 := fun x hx =>
        (List.pairwise_append.1 h).2.2 x hx e List.mem_cons_self
      have hins : (acc.insert e.1 e.2).entries = acc.entries ++ [e] :=
        insertEntry_of_forall_lt hlt
      rw [List.foldl_cons, ih _ (by rw [hins]; simpa using h), hins]
      simp
  apply ext
  simpa [ofList, empty] using key l empty (by simpa [empty] using hl)

/-! ### Entries in another order -/

/-- An entry with a key of its own is added to the others. -/
theorem perm_insertEntry {key : String} (value : α) {l : List (String × α)}
    (h : ∀ e ∈ l, e.1 ≠ key) : (insertEntry key value l).Perm ((key, value) :: l) := by
  induction l with
  | nil => exact List.Perm.refl _
  | cons e l ih =>
    obtain ⟨k, v⟩ := e
    have hk : key ≠ k := fun heq => h (k, v) List.mem_cons_self heq.symm
    rw [insertEntry, if_neg hk]
    split
    · exact List.Perm.refl _
    · have hl := ih fun e he => h e (List.mem_cons_of_mem _ he)
      exact (hl.cons (k, v)).trans (List.Perm.swap _ _ l)

/-- Entries with keys of their own are added one after the other. -/
theorem perm_foldl_insert {l : List (String × α)} (hl : (l.map Prod.fst).Nodup) (m : SortedMap α)
    (hm : ∀ e ∈ l, ∀ x ∈ m.entries, x.1 ≠ e.1) :
    (l.foldl (fun m e => m.insert e.1 e.2) m).entries.Perm (m.entries ++ l) := by
  induction l generalizing m with
  | nil => rw [List.foldl_nil, List.append_nil]
  | cons e l ih =>
    obtain ⟨hfresh, hnodup⟩ := List.nodup_cons.mp hl
    have hinsert : (m.insert e.1 e.2).entries.Perm (e :: m.entries) :=
      perm_insertEntry e.2 (hm e List.mem_cons_self)
    have hapart : ∀ x ∈ l, ∀ y ∈ (m.insert e.1 e.2).entries, y.1 ≠ x.1 := by
      intro x hx y hy
      rcases List.mem_cons.mp (hinsert.mem_iff.mp hy) with rfl | hy
      · rintro heq
        exact hfresh (List.mem_map.mpr ⟨x, hx, heq.symm⟩)
      · exact hm x (List.mem_cons_of_mem _ hx) y hy
    have hrest := ih hnodup (m.insert e.1 e.2) hapart
    exact (hrest.trans (hinsert.append_right l)).trans List.perm_middle.symm

/-- The map of entries whose keys are distinct holds just them. -/
theorem perm_entries_ofList {l : List (String × α)} (hl : (l.map Prod.fst).Nodup) :
    (ofList l).entries.Perm l :=
  perm_foldl_insert hl empty fun _ _ _ hx => absurd hx List.not_mem_nil

/-- **The order in which entries with distinct keys come does not show in their map.** -/
theorem ofList_eq_of_perm {l l' : List (String × α)} (hl : (l.map Prod.fst).Nodup)
    (hperm : l.Perm l') : ofList l = ofList l' := by
  have hl' : (l'.map Prod.fst).Nodup := (hperm.map Prod.fst).nodup_iff.mp hl
  have hentries : (ofList l).entries.Perm (ofList l').entries :=
    ((perm_entries_ofList hl).trans hperm).trans (perm_entries_ofList hl').symm
  refine ext (hentries.eq_of_pairwise ?_ (ofList l).sorted (ofList l').sorted)
  intro a b _ _ hab hba
  exact absurd (String.lt_trans hab hba) (String.lt_irrefl _)

/-! ### Looking up a key -/

theorem lookup_insertEntry_self (key : String) (value : α) (l : List (String × α)) :
    (insertEntry key value l).lookup key = some value := by
  induction l with
  | nil => simp [insertEntry]
  | cons a rest ih =>
    obtain ⟨k, v⟩ := a
    unfold insertEntry
    split
    · simp
    · split
      · simp
      · next hne =>
        have : (key == k) = false := by simp [hne]
        simp [List.lookup_cons, this, ih]

theorem lookup_insertEntry_of_ne {key other : String} (value : α) (hne : other ≠ key)
    (l : List (String × α)) : (insertEntry key value l).lookup other = l.lookup other := by
  have hb : (other == key) = false := by simp [hne]
  induction l with
  | nil => simp [insertEntry, List.lookup_cons, hb]
  | cons a rest ih =>
    obtain ⟨k, v⟩ := a
    unfold insertEntry
    split
    · simp [List.lookup_cons, hb]
    · split
      · next heq => subst heq; simp [List.lookup_cons, hb]
      · simp only [List.lookup_cons]
        cases other == k <;> simp [ih]

theorem get?_insert_self (m : SortedMap α) (key : String) (value : α) :
    (m.insert key value).get? key = some value :=
  lookup_insertEntry_self key value m.entries

theorem get?_insert_of_ne (m : SortedMap α) {key other : String} (value : α) (h : other ≠ key) :
    (m.insert key value).get? other = m.get? other :=
  lookup_insertEntry_of_ne value h m.entries

end SortedMap

end WalletApi
