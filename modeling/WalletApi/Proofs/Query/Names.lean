import Mathlib.Data.List.Basic
import WalletApi.Proofs.Query.Leaves

/-!
# Which leaves share a parameter

The name of a leaf writes every key of the way to it between brackets, and nothing between brackets
for an array step. Keys are written as they are, brackets included, so a name does not always tell
the way: a key that holds `][` reads like two keys, and an empty key reads like an array step.

There is no other ambiguity. Between two steps a `]` is followed by a `[`, and so it is nowhere else
but inside of keys. A name therefore determines the pieces that are left when every key is cut at
each `][` (`WalletApi.wayName_eq_iff`). Where no key on the way holds `][` or is empty, the pieces
are the steps, and the name determines the way
(`WalletApi.TransactionsQuery.leaves_share_name_iff`).
-/

namespace WalletApi

open Json (Value Metadata)

/-! ### Cutting at brackets -/

/-- A `]` followed by a `[`. -/
def brackets : List Char := [']', '[']

/-- A text cut at every `][`. -/
def cutAtBrackets : List Char → List (List Char)
  | ']' :: '[' :: rest => [] :: cutAtBrackets rest
  | [] => [[]]
  | c :: rest => (cutAtBrackets rest).modifyHead (c :: ·)

theorem cutAtBrackets_brackets_append (cs : List Char) :
    cutAtBrackets (brackets ++ cs) = [] :: cutAtBrackets cs := by
  rw [brackets, List.cons_append, List.singleton_append, cutAtBrackets]

theorem cutAtBrackets_cons {c : Char} {cs : List Char} (h : ¬ brackets <+: c :: cs) :
    cutAtBrackets (c :: cs) = (cutAtBrackets cs).modifyHead (c :: ·) := by
  rw [cutAtBrackets]
  rintro rest rfl rfl
  exact h ⟨rest, rfl⟩

/-- A text is put together again from what it was cut into. -/
theorem flatMap_cutAtBrackets (cs : List Char) :
    (cutAtBrackets cs).flatMap (· ++ brackets) = cs ++ brackets := by
  fun_induction cutAtBrackets cs with
  | case1 rest ih => rw [List.flatMap_cons, ih]; rfl
  | case2 => rfl
  | case3 c rest _ ih =>
    cases hcut : cutAtBrackets rest with
    | nil =>
      rw [hcut] at ih
      exact absurd (congrArg List.length ih) (by simp [brackets])
    | cons piece pieces =>
      rw [hcut, List.flatMap_cons] at ih
      rw [List.modifyHead_cons, List.flatMap_cons, List.cons_append, List.cons_append, ih,
        List.cons_append]

theorem cutAtBrackets_injective : Function.Injective cutAtBrackets := by
  intro cs ds h
  have hflat := congrArg (List.flatMap (· ++ brackets)) h
  rw [flatMap_cutAtBrackets, flatMap_cutAtBrackets] at hflat
  exact List.append_cancel_right hflat

/-- Brackets between two texts cut them apart, whatever the texts begin and end with. -/
theorem cutAtBrackets_append (cs ds : List Char) :
    cutAtBrackets (cs ++ (brackets ++ ds)) = cutAtBrackets cs ++ cutAtBrackets ds := by
  fun_induction cutAtBrackets cs with
  | case1 rest ih => exact (cutAtBrackets_brackets_append _).trans (congrArg ([] :: ·) ih)
  | case2 => exact cutAtBrackets_brackets_append ds
  | case3 c rest hc ih =>
    -- The new brackets do not begin before their own place, since they do not overlap themselves.
    have hfree : ¬ brackets <+: c :: (rest ++ (brackets ++ ds)) := by
      rintro ⟨t, ht⟩
      have hfirst : ']' = c := (List.cons.inj ht).1
      have hsecond : '[' :: t = rest ++ (brackets ++ ds) := (List.cons.inj ht).2
      cases rest with
      | nil => exact absurd (List.cons.inj hsecond).1 (by decide)
      | cons d rest => exact hc rest hfirst.symm (by rw [(List.cons.inj hsecond).1])
    rw [List.cons_append, cutAtBrackets_cons hfree, ih]
    cases hcut : cutAtBrackets rest with
    | nil =>
      have hflat := flatMap_cutAtBrackets rest
      rw [hcut] at hflat
      exact absurd (congrArg List.length hflat) (by simp [brackets])
    | cons piece pieces => rfl

/-- A text without `][` stays in one piece. -/
theorem cutAtBrackets_of_notInfix {cs : List Char} (h : ¬ brackets <:+: cs) :
    cutAtBrackets cs = [cs] := by
  induction cs with
  | nil => rfl
  | cons c cs ih =>
    have hrest : ¬ brackets <:+: cs := fun hwithin =>
      h (hwithin.trans (List.suffix_cons c cs).isInfix)
    rw [cutAtBrackets_cons fun hprefix => h hprefix.isInfix, ih hrest, List.modifyHead_cons]

/-! ### Names -/

/-- What a step writes between brackets. -/
def MetadataStep.text : MetadataStep → List Char
  | .key k => k.toList
  | .item => []

/-- **The pieces of a way**: its steps as they are written, each cut at every `][`. -/
def wayPieces (way : List MetadataStep) : List (List Char) :=
  way.flatMap fun s => cutAtBrackets s.text

theorem toList_extend (name : String) (s : MetadataStep) :
    (s.extend name).toList = name.toList ++ '[' :: (s.text ++ [']']) := by
  cases s with
  | key k => simp [MetadataStep.extend, stepInto, MetadataStep.text]
  | item => simp [MetadataStep.extend, stepItems, MetadataStep.text]

/-- A name with one more bracket opened: its steps, each followed by the brackets to the next. -/
theorem toList_foldl_extend (way : List MetadataStep) (name : String) :
    (way.foldl MetadataStep.extend name).toList ++ ['['] =
      name.toList ++ '[' :: way.flatMap fun s => s.text ++ brackets := by
  induction way generalizing name with
  | nil => rfl
  | cons s way ih =>
    rw [List.foldl_cons, ih, toList_extend, List.flatMap_cons]
    simp [brackets]

theorem cutAtBrackets_steps (way : List MetadataStep) :
    cutAtBrackets (way.flatMap fun s => s.text ++ brackets) = wayPieces way ++ [[]] := by
  induction way with
  | nil => rfl
  | cons s way ih =>
    rw [List.flatMap_cons, List.append_assoc, cutAtBrackets_append, ih, ← List.append_assoc]
    rfl

/-- **Two ways have one name exactly when they have the same pieces.** -/
theorem wayName_eq_iff {way other : List MetadataStep} :
    wayName way = wayName other ↔ wayPieces way = wayPieces other := by
  have hopen : wayName way = wayName other ↔
      (way.flatMap fun s => s.text ++ brackets) = other.flatMap fun s => s.text ++ brackets := by
    rw [← String.toList_inj, ← List.append_left_inj ['['], wayName, wayName, toList_foldl_extend,
      toList_foldl_extend, List.append_right_inj, List.cons_inj_right]
  rw [hopen, ← cutAtBrackets_injective.eq_iff, cutAtBrackets_steps, cutAtBrackets_steps,
    List.append_left_inj]

/-- A step that is written like no other: an array step, or a key that is neither empty nor holds
`][`. -/
def MetadataStep.IsPlain : MetadataStep → Prop
  | .key k => k ≠ "" ∧ ¬ brackets <:+: k.toList
  | .item => True

instance : DecidablePred MetadataStep.IsPlain
  | .key k => inferInstanceAs (Decidable (k ≠ "" ∧ ¬ brackets <:+: k.toList))
  | .item => inferInstanceAs (Decidable True)

theorem MetadataStep.cutAtBrackets_text {s : MetadataStep} (h : s.IsPlain) :
    cutAtBrackets s.text = [s.text] := by
  cases s with
  | key k => exact cutAtBrackets_of_notInfix h.2
  | item => rfl

theorem MetadataStep.eq_of_text_eq {s t : MetadataStep} (hs : s.IsPlain) (ht : t.IsPlain)
    (h : s.text = t.text) : s = t := by
  cases s with
  | key k =>
    cases t with
    | key l => exact congrArg _ (String.toList_inj.mp h)
    | item => exact absurd (String.toList_eq_nil_iff.mp h) hs.1
  | item =>
    cases t with
    | key l => exact absurd (String.toList_eq_nil_iff.mp h.symm) ht.1
    | item => rfl

theorem wayPieces_of_isPlain {way : List MetadataStep} (h : ∀ s ∈ way, s.IsPlain) :
    wayPieces way = way.map MetadataStep.text := by
  rw [wayPieces, List.map_eq_flatMap]
  exact List.flatMap_congr fun s hs => MetadataStep.cutAtBrackets_text (h s hs)

/-- Among plain ways the name determines the way. -/
theorem wayName_eq_iff_of_isPlain {way other : List MetadataStep} (h : ∀ s ∈ way, s.IsPlain)
    (hother : ∀ s ∈ other, s.IsPlain) : wayName way = wayName other ↔ way = other := by
  refine ⟨fun hname => ?_, fun heq => heq ▸ rfl⟩
  rw [wayName_eq_iff, wayPieces_of_isPlain h, wayPieces_of_isPlain hother] at hname
  induction way generalizing other with
  | nil => exact (List.map_eq_nil_iff.mp hname.symm).symm
  | cons s way ih =>
    obtain ⟨t, rest, rfl, htext, hrest⟩ := List.map_eq_cons_iff.mp hname.symm
    obtain ⟨hs, hway⟩ := List.forall_mem_cons.mp h
    obtain ⟨ht, hothers⟩ := List.forall_mem_cons.mp hother
    rw [MetadataStep.eq_of_text_eq hs ht htext.symm, ih hway hothers hrest.symm]

/-! ### The values of a name -/

/-- The values of one name, none where there is no such name. -/
def QueryValues.under (values : QueryValues) (name : String) : List String :=
  (values.get? name).getD []

theorem QueryValues.under_push (values : QueryValues) (p : Parameter) (name : String) :
    (values.push p).under name = values.under name ++ if p.1 = name then [p.2] else [] := by
  rw [under, push]
  split
  · next heq => rw [← heq, SortedMap.get?_insert_self]; rfl
  · next hne => rw [SortedMap.get?_insert_of_ne _ _ (Ne.symm hne), List.append_nil]; rfl

/-- The values of a name are those of its parameters, in the order in which they are made. -/
theorem QueryValues.under_foldl_push (values : QueryValues) (ps : List Parameter) (name : String) :
    QueryValues.under (ps.foldl QueryValues.push values) name =
      values.under name ++ (ps.filter fun p => p.1 = name).map Prod.snd := by
  induction ps generalizing values with
  | nil => rw [List.foldl_nil, List.filter_nil, List.map_nil, List.append_nil]
  | cons p ps ih =>
    rw [List.foldl_cons, ih, under_push, List.append_assoc, List.filter_cons]
    split
    · next heq => rw [if_pos (decide_eq_true heq)]; rfl
    · next hne => rw [if_neg (by simpa using hne)]; rfl

/-- **Under a name stand the scalar parameters of that name, and then the leaves whose way the name
spells.** -/
theorem TransactionsQuery.under_of_build {q : TransactionsQuery} {values : QueryValues}
    (h : q.build = .ok values) (name : String) :
    values.under name =
      (q.scalarParameters.filter fun p => p.1 = name).map Prod.snd ++
        ((metadataLeaves q.metadata).filter fun leaf => wayName leaf.way = name).map
          MetadataLeaf.text := by
  obtain ⟨ps, hps, rfl⟩ := map_eq_ok.mp h
  rw [QueryValues.under_foldl_push, parameters_eq_ok hps, List.filter_append, List.map_append,
    List.filter_map, List.map_map]
  rfl

/-! ### Leaves that share a name -/

/-- **Two leaves share a parameter exactly when the ways to them have the same pieces**; so leaves
with the same way always do, and where every key on both ways is plain no others do. The leaves are
what the ways lead to, and a leaf stands under the name that spells its way. -/
theorem TransactionsQuery.leaves_share_name_iff {q : TransactionsQuery} {values : QueryValues}
    (h : q.build = .ok values) :
    (∀ leaf, leaf ∈ metadataLeaves q.metadata ↔
      ∃ v, LeadsTo leaf.way (Value.metadata q.metadata) v ∧ scalarText? v = some leaf.text) ∧
    (∀ name, values.under name =
      (q.scalarParameters.filter fun p => p.1 = name).map Prod.snd ++
        ((metadataLeaves q.metadata).filter fun leaf => wayName leaf.way = name).map
          MetadataLeaf.text) ∧
    ∀ leaf ∈ metadataLeaves q.metadata, ∀ other ∈ metadataLeaves q.metadata,
      (leaf.way = other.way → wayName leaf.way = wayName other.way) ∧
      (wayName leaf.way = wayName other.way ↔ wayPieces leaf.way = wayPieces other.way) ∧
      ((∀ s ∈ leaf.way, s.IsPlain) → (∀ s ∈ other.way, s.IsPlain) →
        (wayName leaf.way = wayName other.way ↔ leaf.way = other.way)) :=
  ⟨fun _ => mem_metadataLeaves, under_of_build h, fun _ _ _ _ =>
    ⟨congrArg wayName, wayName_eq_iff, wayName_eq_iff_of_isPlain⟩⟩

/-- A query for a sender and two tags. -/
def TransactionsQuery.tagged : TransactionsQuery :=
  { TransactionsQuery.default with
    metadata := .ofList [("p2p", .object [("sender", .string "john")]),
      ("tags", .array [.string "a", .string "b"])] }

/-- The tags share a parameter, and the sender has another one. -/
theorem TransactionsQuery.leaves_share_name_tagged :
    ∃ values, tagged.build = .ok values ∧ values.under "metadata[tags][]" = ["a", "b"] ∧
      wayName [.key "tags", .item] ≠ wayName [.key "p2p", .key "sender"] := by
  have hbuild : tagged.build.toOption.isSome = true := by decide +kernel
  cases h : tagged.build with
  | error e => rw [h] at hbuild; exact nomatch hbuild
  | ok values =>
    obtain ⟨-, hunder, hleaves⟩ := leaves_share_name_iff h
    have htag : ⟨[.key "tags", .item], "a"⟩ ∈ metadataLeaves tagged.metadata := by decide +kernel
    have hsender : ⟨[.key "p2p", .key "sender"], "john"⟩ ∈ metadataLeaves tagged.metadata := by
      decide +kernel
    obtain ⟨-, -, hplain⟩ := hleaves _ htag _ hsender
    have htags : ∀ s ∈ [.key "tags", .item], MetadataStep.IsPlain s :=
      List.forall_mem_cons.mpr ⟨by decide, List.forall_mem_singleton.mpr trivial⟩
    have hsenders : ∀ s ∈ [.key "p2p", .key "sender"], MetadataStep.IsPlain s :=
      List.forall_mem_cons.mpr ⟨by decide, List.forall_mem_singleton.mpr (by decide)⟩
    refine ⟨values, rfl, by rw [hunder]; decide +kernel, fun hname => ?_⟩
    exact absurd ((hplain htags hsenders).mp hname) (by decide)

/-- A query for a key inside another one, and for a key with brackets inside. -/
def TransactionsQuery.bracketed : TransactionsQuery :=
  { TransactionsQuery.default with
    metadata := .ofList [("a", .object [("b", .string "x")]), ("a][b", .string "y")] }

/-- **A key that holds `][` shares the parameter of two keys.** -/
theorem TransactionsQuery.leaves_share_name_bracketed :
    ∃ values, bracketed.build = .ok values ∧
      ∃ leaf ∈ metadataLeaves bracketed.metadata, ∃ other ∈ metadataLeaves bracketed.metadata,
        leaf.way ≠ other.way ∧ wayName leaf.way = wayName other.way ∧
          values.under (wayName leaf.way) = [leaf.text, other.text] := by
  have hbuild : bracketed.build.toOption.isSome = true := by decide +kernel
  cases h : bracketed.build with
  | error e => rw [h] at hbuild; exact nomatch hbuild
  | ok values =>
    refine ⟨values, rfl, ⟨[.key "a", .key "b"], "x"⟩, by decide +kernel,
      ⟨[.key "a][b"], "y"⟩, by decide +kernel, by decide, by decide +kernel, ?_⟩
    rw [under_of_build h]
    decide +kernel

end WalletApi
