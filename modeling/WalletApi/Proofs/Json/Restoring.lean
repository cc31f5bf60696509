import WalletApi.Json.Reader
import WalletApi.Proofs.Json.Documents
import WalletApi.Proofs.Results

/-!
# Readers that restore what was written

A reader restores a value from what it was written as if it reads it back from the document of that
text, given room for the containers (`WalletApi.Json.Restores`). Lists and maps are restored where
their entries are, and any value whose objects are sorted by key is restored by the reader of
free-form data (`WalletApi.Json.restores_value`); the objects of an unsorted one would come out
sorted, as all that is read does (`WalletApi.Json.isSorted_of_value`). With room for
`WalletApi.Json.maxDepth` levels this is what reading the bytes of a body comes to
(`WalletApi.Json.Restores.read_bodyOf`).
-/

namespace WalletApi.Json

/-! ### Depth -/

namespace Value

mutual
/-- How deep the containers of a value nest. -/
def nesting : Value → ℕ
  | .array items => nestingItems items + 1
  | .object members => nestingMembers members + 1
  | _ => 0

/-- How deep the containers of values nest. -/
def nestingItems : List Value → ℕ
  | [] => 0
  | v :: rest => max (nesting v) (nestingItems rest)

/-- How deep the containers of members nest. -/
def nestingMembers : List (String × Value) → ℕ
  | [] => 0
  | (_, v) :: rest => max (nesting v) (nestingMembers rest)
end

theorem nesting_le_of_mem_items {v : Value} {l : List Value} (h : v ∈ l) :
    v.nesting ≤ nestingItems l := by
  induction l with
  | nil => exact nomatch h
  | cons w l ih =>
    rw [nestingItems]
    rcases List.mem_cons.mp h with rfl | h
    · exact Nat.le_max_left _ _
    · exact Nat.le_trans (ih h) (Nat.le_max_right _ _)

theorem nesting_le_of_mem_members {e : String × Value} {l : List (String × Value)} (h : e ∈ l) :
    e.2.nesting ≤ nestingMembers l := by
  induction l with
  | nil => exact nomatch h
  | cons w l ih =>
    rw [nestingMembers]
    rcases List.mem_cons.mp h with rfl | h
    · exact Nat.le_max_left _ _
    · exact Nat.le_trans (ih h) (Nat.le_max_right _ _)

/-- There is room inside of a container for what it holds. -/
theorem exists_enter {n depth : ℕ} (h : n + 1 ≤ depth) :
    ∃ inside, n ≤ inside ∧ Reader.enter depth = .ok inside := by
  cases depth with
  | zero => omega
  | succ inside => exact ⟨inside, Nat.le_of_succ_le_succ h, rfl⟩

/-- **The objects of a value are sorted by key**, as free-form data is kept. -/
inductive IsSorted : Value → Prop
  | null : IsSorted .null
  | bool (b : Bool) : IsSorted (.bool b)
  | number (n : Number) : IsSorted (.number n)
  | string (s : String) : IsSorted (.string s)
  | array {items : List Value} (h : ∀ v ∈ items, IsSorted v) : IsSorted (.array items)
  | object {members : List (String × Value)} (hsorted : members.Pairwise fun a b => a.1 < b.1)
    (h : ∀ e ∈ members, IsSorted e.2) : IsSorted (.object members)

end Value

/-! ### Restoring -/

variable {α β : Type} {r : Reader α}

/-- **A reader restores a value** from what it was written as. -/
structure Restores (r : Reader α) (v : Value) (a : α) : Prop where
  whole : v.IsWhole
  reads : ∀ {depth : ℕ}, v.nesting ≤ depth → r depth (Doc.ofValue v) = .ok a

/-- **What a reader restores is read from the bytes of a body.** -/
theorem Restores.read_bodyOf {v : Value} {a : α} (h : Restores r v a)
    (hdepth : v.nesting ≤ maxDepth) : read r (Client.bodyOf v) = .ok a := by
  rw [read, Doc.ofBytes_bodyOf h.whole]
  simp only [h.reads hdepth, ok_bind, atEnd]
  rfl

/-! ### Plain values -/

theorem restores_string (s : String) : Restores Reader.string (.string s) s :=
  ⟨.string s, fun _ => rfl⟩

theorem restores_bool (b : Bool) : Restores Reader.bool (.bool b) b :=
  ⟨.bool b, fun _ => rfl⟩

theorem restores_integer {low high n : ℤ} (hlow : low ≤ n) (hhigh : n ≤ high)
    (hmin : -(Nat.pow 2 63 : ℕ) ≤ low) (hmax : high ≤ Number.unsignedMax) (range : String) :
    Restores (Reader.integer low high range) (.int n) n :=
  ⟨.integer (by omega) (by omega), fun _ => if_pos ⟨hlow, hhigh⟩⟩

theorem restores_u32 {n : ℕ} (h : n ≤ 0xffffffff) : Restores Reader.u32 (.nat n) n := by
  have hint : Restores (Reader.integer 0 0xffffffff "u32") (.int n) n :=
    restores_integer (by omega) (by omega) (by decide) (by decide) _
  exact ⟨hint.whole, fun hdepth => congrArg (Except.map Int.toNat) (hint.reads hdepth)⟩

theorem restores_u64 {n : ℕ} (h : n ≤ Number.unsignedMax) : Restores Reader.u64 (.nat n) n := by
  have hint : Restores (Reader.integer 0 Number.unsignedMax "u64") (.int n) n :=
    restores_integer (by omega) (by omega) (by decide) (by decide) _
  exact ⟨hint.whole, fun hdepth => congrArg (Except.map Int.toNat) (hint.reads hdepth)⟩

theorem restores_i64 {n : ℤ} (hlow : -0x8000000000000000 ≤ n) (hhigh : n ≤ 0x7fffffffffffffff) :
    Restores Reader.i64 (.int n) n :=
  restores_integer hlow hhigh (by decide) (by decide) _

/-- What is written as anything but `null` is restored where it may be missing. -/
theorem Restores.optional {v : Value} {a : α} (h : Restores r v a) (hv : v ≠ .null) :
    Restores (Reader.optional r) v (some a) := by
  refine ⟨h.whole, fun {depth} hdepth => ?_⟩
  have hread := h.reads hdepth
  cases v with
  | null => exact absurd rfl hv
  | _ =>
    simp only [Doc.ofValue] at hread ⊢
    simp only [Reader.optional, hread, Except.map]

/-! ### Lists and maps -/

theorem readItems_ofItems {f : α → Value} {l : List α} {depth : ℕ}
    (h : ∀ a ∈ l, r depth (Doc.ofValue (f a)) = .ok a) :
    Reader.readItems r depth (Doc.ofItems (l.map f)) = .ok l := by
  induction l with
  | nil => rfl
  | cons a l ih =>
    rw [List.map_cons, Doc.ofItems, Reader.readItems, h a List.mem_cons_self,
      ih fun b hb => h b (List.mem_cons_of_mem a hb)]
    rfl

theorem readMembers_ofMembers {f : α → Value} {l : List (String × α)} {depth : ℕ}
    (h : ∀ e ∈ l, r depth (Doc.ofValue (f e.2)) = .ok e.2) :
    Reader.readMembers r depth (Doc.ofMembers (l.map fun e => (e.1, f e.2))) = .ok l := by
  induction l with
  | nil => rfl
  | cons e l ih =>
    rw [List.map_cons, Doc.ofMembers, Reader.readMembers, h e List.mem_cons_self,
      ih fun b hb => h b (List.mem_cons_of_mem e hb)]
    rfl

/-- A list is restored where its entries are. -/
theorem restores_list {f : α → Value} {l : List α} (h : ∀ a ∈ l, Restores r (f a) a) :
    Restores (Reader.list r) (.array (l.map f)) l := by
  refine ⟨.array (List.forall_mem_map.mpr fun a ha => (h a ha).whole), fun {depth} hdepth => ?_⟩
  rw [Value.nesting] at hdepth
  obtain ⟨inside, hinside, henter⟩ := Value.exists_enter hdepth
  have hitems : Reader.readItems r inside (Doc.ofItems (l.map f)) = .ok l :=
    readItems_ofItems fun a ha => (h a ha).reads
      (Nat.le_trans (Value.nesting_le_of_mem_items (List.mem_map_of_mem ha)) hinside)
  rw [Doc.ofValue, Reader.list, henter, ok_bind, hitems]
  rfl

/-- A sorted map is restored where its entries are. -/
theorem restores_map {f : α → Value} {m : SortedMap α}
    (h : ∀ e ∈ m.entries, Restores r (f e.2) e.2) : Restores (Reader.map r) (.map f m) m := by
  refine ⟨.object (List.forall_mem_map.mpr fun e he => (h e he).whole), fun {depth} hdepth => ?_⟩
  rw [Value.map, Value.nesting] at hdepth
  obtain ⟨inside, hinside, henter⟩ := Value.exists_enter hdepth
  have hmembers : Reader.readMembers r inside
      (Doc.ofMembers (m.entries.map fun e => (e.1, f e.2))) = .ok m.entries := by
    refine readMembers_ofMembers fun e he => (h e he).reads ?_
    have hle : (f e.2).nesting ≤ _ := Value.nesting_le_of_mem_members
      (List.mem_map_of_mem (f := fun e => (e.1, f e.2)) he)
    exact Nat.le_trans hle hinside
  rw [Value.map, Doc.ofValue, Reader.map, henter, ok_bind, hmembers, ok_bind, atEnd, ok_bind,
    SortedMap.ofList_entries]
  rfl

/-! ### Any value -/

theorem valueItems_eq_readItems (depth : ℕ) (l : List Doc) :
    Reader.valueItems depth l = Reader.readItems Reader.value depth l := by
  induction l with
  | nil => rfl
  | cons d l ih => rw [Reader.valueItems, Reader.readItems, ih]

theorem valueMembers_eq_readMembers (depth : ℕ) (l : List (Doc × Doc)) :
    Reader.valueMembers depth l = Reader.readMembers Reader.value depth l := by
  induction l with
  | nil => rfl
  | cons d l ih =>
    rw [Reader.valueMembers, Reader.readMembers, ih]

/-- An array is read as the list of its items. -/
theorem value_array_eq (depth : ℕ) (items : List Doc) (close : Option Fault) :
    Reader.value depth (.array items close) =
      (Reader.list Reader.value depth (.array items close)).map .array := by
  rw [Reader.value, Reader.list]
  cases Reader.enter depth with
  | error e => rfl
  | ok depth =>
    rw [ok_bind, ok_bind, valueItems_eq_readItems]
    cases Reader.readItems Reader.value depth items with
    | error e => rfl
    | ok l => cases close <;> rfl

/-- An object is read as the map of its members. -/
theorem value_object_eq (depth : ℕ) (members : List (Doc × Doc)) (close : Option Fault) :
    Reader.value depth (.object members close) =
      (Reader.metadata depth (.object members close)).map fun m => .object m.entries := by
  rw [Reader.value, Reader.metadata, Reader.map]
  cases Reader.enter depth with
  | error e => rfl
  | ok depth =>
    rw [ok_bind, ok_bind, valueMembers_eq_readMembers]
    cases Reader.readMembers Reader.value depth members with
    | error e => rfl
    | ok l => cases close <;> rfl

/-- Free-form data is restored where the values in it are. -/
theorem restores_metadata {m : Metadata} (h : ∀ e ∈ m.entries, Restores Reader.value e.2 e.2) :
    Restores Reader.metadata (.metadata m) m := by
  have hmap : Value.map (fun v => v) m = .metadata m := by
    rw [Value.map, Value.metadata, List.map_id']
  exact hmap ▸ restores_map (f := fun v => v) h

/-- **A value whose objects are sorted is restored** as free-form data. -/
theorem restores_value {v : Value} (hwhole : v.IsWhole) (hsorted : v.IsSorted) :
    Restores Reader.value v v := by
  induction hsorted with
  | null => exact ⟨hwhole, fun _ => rfl⟩
  | bool b => exact ⟨hwhole, fun _ => rfl⟩
  | number n => exact ⟨hwhole, fun _ => rfl⟩
  | string s => exact ⟨hwhole, fun _ => rfl⟩
  | @array items h ih =>
    cases hwhole with
    | array hitems =>
      have hlist := restores_list (f := fun v => v) fun v hv => ih v hv (hitems v hv)
      rw [List.map_id'] at hlist
      refine ⟨.array hitems, fun {depth} hdepth => ?_⟩
      have hread := hlist.reads hdepth
      rw [Doc.ofValue] at hread ⊢
      rw [value_array_eq, hread]
      rfl
  | @object members hsorted h ih =>
    cases hwhole with
    | object hmembers =>
      have hmap := restores_metadata (m := ⟨members, hsorted⟩) fun e he =>
        ih e he (hmembers e he)
      refine ⟨.object hmembers, fun {depth} hdepth => ?_⟩
      have hread := hmap.reads hdepth
      rw [Value.metadata, Doc.ofValue] at hread
      rw [Doc.ofValue, value_object_eq, hread]
      rfl

theorem exists_readItems {l : List Value} (depth : ℕ)
    (h : ∀ v ∈ l, ∃ a, r depth (Doc.ofValue v) = .ok a) :
    ∃ l', Reader.readItems r depth (Doc.ofItems l) = .ok l' := by
  induction l with
  | nil => exact ⟨[], rfl⟩
  | cons v l ih =>
    obtain ⟨a, ha⟩ := h v List.mem_cons_self
    obtain ⟨l', hl'⟩ := ih fun w hw => h w (List.mem_cons_of_mem v hw)
    exact ⟨a :: l', by rw [Doc.ofItems, Reader.readItems, ha, hl']; rfl⟩

theorem exists_readMembers {l : List (String × Value)} (depth : ℕ)
    (h : ∀ e ∈ l, ∃ a, r depth (Doc.ofValue e.2) = .ok a) :
    ∃ l', Reader.readMembers r depth (Doc.ofMembers l) = .ok l' := by
  induction l with
  | nil => exact ⟨[], rfl⟩
  | cons e l ih =>
    obtain ⟨a, ha⟩ := h e List.mem_cons_self
    obtain ⟨l', hl'⟩ := ih fun w hw => h w (List.mem_cons_of_mem e hw)
    exact ⟨(e.1, a) :: l', by rw [Doc.ofMembers, Reader.readMembers, ha, hl']; rfl⟩

/-- Any value is read as some value, be its objects sorted or not. -/
theorem exists_value {v : Value} (hwhole : v.IsWhole) {depth : ℕ} (hdepth : v.nesting ≤ depth) :
    ∃ w, Reader.value depth (Doc.ofValue v) = .ok w := by
  induction hwhole generalizing depth with
  | null => exact ⟨_, rfl⟩
  | bool b => exact ⟨_, rfl⟩
  | string s => exact ⟨_, rfl⟩
  | integer hlow hhigh => exact ⟨_, rfl⟩
  | @array items h ih =>
    rw [Value.nesting] at hdepth
    obtain ⟨inside, hinside, henter⟩ := Value.exists_enter hdepth
    obtain ⟨l, hl⟩ := exists_readItems (r := Reader.value) inside fun v hv =>
      ih v hv (Nat.le_trans (Value.nesting_le_of_mem_items hv) hinside)
    refine ⟨.array l, ?_⟩
    rw [Doc.ofValue, value_array_eq, Reader.list, henter, ok_bind, hl]
    rfl
  | @object members h ih =>
    rw [Value.nesting] at hdepth
    obtain ⟨inside, hinside, henter⟩ := Value.exists_enter hdepth
    obtain ⟨l, hl⟩ := exists_readMembers (r := Reader.value) inside fun e he =>
      ih e he (Nat.le_trans (Value.nesting_le_of_mem_members he) hinside)
    refine ⟨.object (SortedMap.ofList l).entries, ?_⟩
    rw [Doc.ofValue, value_object_eq, Reader.metadata, Reader.map, henter, ok_bind, hl]
    rfl

/-! ### What is read is sorted -/

mutual
/-- **A value that is read is sorted.** -/
theorem isSorted_of_value : ∀ {d : Doc} {depth : ℕ} {v : Value},
    Reader.value depth d = .ok v → v.IsSorted
  | .null, _, _, h => by
    obtain rfl := Except.ok.inj h
    exact .null
  | .bool b, _, _, h => by
    obtain rfl := Except.ok.inj h
    exact .bool b
  | .number n, _, _, h => by
    obtain rfl := Except.ok.inj h
    exact .number n
  | .string s, _, _, h => by
    obtain rfl := Except.ok.inj h
    exact .string s
  | .array items close, depth, v, h => by
    obtain ⟨inside, -, h⟩ := bind_eq_ok.mp h
    obtain ⟨l, hl, h⟩ := bind_eq_ok.mp h
    obtain ⟨-, -, h⟩ := bind_eq_ok.mp h
    obtain rfl := Except.ok.inj h
    exact .array (isSorted_of_valueItems hl)
  | .object members close, depth, v, h => by
    obtain ⟨inside, -, h⟩ := bind_eq_ok.mp h
    obtain ⟨l, hl, h⟩ := bind_eq_ok.mp h
    obtain ⟨-, -, h⟩ := bind_eq_ok.mp h
    obtain rfl := Except.ok.inj h
    exact .object (SortedMap.ofList l).sorted fun e he =>
      isSorted_of_valueMembers hl e (SortedMap.mem_of_mem_ofList he)
  | .defect _ _ _, _, _, h => nomatch h

theorem isSorted_of_valueItems : ∀ {items : List Doc} {depth : ℕ} {l : List Value},
    Reader.valueItems depth items = .ok l → ∀ v ∈ l, v.IsSorted
  | [], _, _, h => by
    obtain rfl := Except.ok.inj h
    exact fun v hv => absurd hv List.not_mem_nil
  | d :: rest, depth, l, h => by
    obtain ⟨v, hv, h⟩ := bind_eq_ok.mp h
    obtain ⟨others, hothers, h⟩ := bind_eq_ok.mp h
    obtain rfl := Except.ok.inj h
    exact List.forall_mem_cons.mpr ⟨isSorted_of_value hv, isSorted_of_valueItems hothers⟩

theorem isSorted_of_valueMembers : ∀ {members : List (Doc × Doc)} {depth : ℕ}
    {l : List (String × Value)}, Reader.valueMembers depth members = .ok l →
      ∀ e ∈ l, e.2.IsSorted
  | [], _, _, h => by
    obtain rfl := Except.ok.inj h
    exact fun e he => absurd he List.not_mem_nil
  | (k, d) :: rest, depth, l, h => by
    obtain ⟨name, -, h⟩ := bind_eq_ok.mp h
    obtain ⟨v, hv, h⟩ := bind_eq_ok.mp h
    obtain ⟨others, hothers, h⟩ := bind_eq_ok.mp h
    obtain rfl := Except.ok.inj h
    exact List.forall_mem_cons.mpr ⟨isSorted_of_value hv, isSorted_of_valueMembers hothers⟩
end

/-- **Free-form data that is read is sorted**, at the top and inside. -/
theorem isSorted_of_metadata {d : Doc} {depth : ℕ} {m : Metadata}
    (h : Reader.metadata depth d = .ok m) : (Value.metadata m).IsSorted := by
  match d with
  | .object members close =>
    have hvalue : Reader.value depth (.object members close) = .ok (.metadata m) := by
      rw [value_object_eq, h]
      rfl
    exact isSorted_of_value hvalue
  | .null => exact nomatch h
  | .bool _ => exact nomatch h
  | .number _ => exact nomatch h
  | .string _ => exact nomatch h
  | .array _ _ => exact nomatch h
  | .defect _ _ _ => exact nomatch h

end WalletApi.Json
