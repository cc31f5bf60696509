import WalletApi.Proofs.Url.Paths

/-!
# Paths closed by a slash

The segments of an address that was read hold no slashes: the text is split at them, and encoding a
piece brings none back (`WalletApi.Url.slashFree_pathAfterAuthority`). So the text of the path
tells where the last segment begins, and closing the path is adding a slash to its text unless it
ends in one (`WalletApi.Url.pathText_closePath`).
-/

namespace WalletApi.Url

/-- A text with a slash at its end: one is added unless it is there. -/
def withSlash (cs : List Char) : List Char :=
  if cs.getLast? = some '/' then cs else cs ++ ['/']

/-! ### Segments without slashes -/

/-- No segment holds a slash. -/
def SlashFree (l : List (List Char)) : Prop := ∀ s ∈ l, '/' ∉ s

theorem SlashFree.append {l l' : List (List Char)} (h : SlashFree l) (h' : SlashFree l') :
    SlashFree (l ++ l') := fun s hs => (List.mem_append.mp hs).elim (h s) (h' s)

theorem slashFree_singleton {s : List Char} (h : '/' ∉ s) : SlashFree [s] :=
  fun _ ht => List.mem_singleton.mp ht ▸ h

theorem ascend_subset (l : List (List Char)) : ascend l ⊆ l := by
  rw [ascend]
  split
  · split
    · exact List.Subset.refl l
    · exact List.dropLast_subset l
  · exact List.nil_subset l

theorem SlashFree.ascend {l : List (List Char)} (h : SlashFree l) : SlashFree (ascend l) :=
  fun s hs => h s (ascend_subset l hs)

theorem SlashFree.extend {l : List (List Char)} (h : SlashFree l) {piece : List Char}
    (hpiece : '/' ∉ piece) : SlashFree (extend false l piece) :=
  h.append (slashFree_singleton (Percent.slash_notMem_encode hpiece))

theorem SlashFree.pass {l : List (List Char)} (h : SlashFree l) {piece : List Char}
    (hpiece : '/' ∉ piece) : SlashFree (pass false l piece) := by
  rw [Url.pass]
  split
  · exact h
  · exact h.ascend
  · exact h.extend hpiece

/-- Walking brings no slashes into the segments. -/
theorem SlashFree.walk {pieces : List (List Char)} (hpieces : SlashFree pieces)
    {start : List (List Char)} (hstart : SlashFree start) :
    SlashFree (walk false start pieces) := by
  induction pieces generalizing start with
  | nil => exact hstart
  | cons piece pieces ih =>
    obtain ⟨hpiece, hpieces⟩ := List.forall_mem_cons.mp hpieces
    cases pieces with
    | nil =>
      rw [walk_singleton]
      split
      · exact hstart.pass hpiece
      · exact (hstart.pass hpiece).append (slashFree_singleton List.not_mem_nil)
    | cons next pieces =>
      rw [walk_cons _ _ (List.cons_ne_nil _ _)]
      exact ih hpieces (hstart.pass hpiece)

/-- **The path that follows an authority has no slashes in its segments.** -/
theorem slashFree_pathAfterAuthority {scheme : List Char} (hfile : scheme ≠ fileScheme)
    (cs : List Char) :
    ∃ l, pathAfterAuthority scheme cs = .segments l ∧ SlashFree l := by
  have hfrom : ∀ cs, ∃ l, pathFrom scheme [] cs = .segments l ∧ SlashFree l := fun cs => by
    refine ⟨_, pathFrom_of_ne_file hfile [] cs, SlashFree.walk (fun piece hpiece hmem => ?_) ?_⟩
    · exact absurd (isSlash_of_mem_splitAtSlashes hpiece '/' hmem) Bool.noConfusion
    · exact fun s hs => absurd hs List.not_mem_nil
  cases cs with
  | nil =>
    rw [pathAfterAuthority]
    split
    · exact ⟨_, rfl, slashFree_singleton List.not_mem_nil⟩
    · exact ⟨_, rfl, fun s hs => absurd hs List.not_mem_nil⟩
  | cons c rest =>
    rw [pathAfterAuthority]
    split
    · exact hfrom _
    · exact hfrom _

/-! ### Closing -/

/-- A text of segments ends in a slash exactly when the last one is empty. -/
theorem getLast?_pathText_iff {l : List (List Char)} (h : SlashFree l) :
    (pathText (.segments l)).getLast? = some '/' ↔ l.getLast? = some [] := by
  rcases List.eq_nil_or_concat l with rfl | ⟨front, last, rfl⟩
  · exact ⟨fun h => (nomatch h), fun h => (nomatch h)⟩
  · rw [List.concat_eq_append] at h ⊢
    rw [pathText_concat, List.getLast?_append, List.getLast?_cons, List.getLast?_append,
      List.getLast?_singleton, Option.some_or, Option.some_or]
    cases hlast : last.getLast? with
    | none => simp [List.getLast?_eq_none_iff.mp hlast]
    | some c =>
      have hc : '/' ∉ last := h last (List.mem_append_right _ (List.mem_singleton.mpr rfl))
      have hmem := List.mem_of_getLast? hlast
      constructor
      · intro heq
        rw [Option.getD_some, Option.some.injEq] at heq
        exact absurd (heq ▸ hmem) hc
      · intro heq
        rw [Option.some.inj heq] at hmem
        exact absurd hmem List.not_mem_nil

/-- **Closing a path adds a slash to its text**, unless it ends in one. -/
theorem pathText_closePath {u : Url} {l : List (List Char)} (hl : u.path = .segments l)
    (h : SlashFree l) : pathText u.closePath.path = withSlash (pathText u.path) := by
  rw [withSlash, hl, closePath, hl]
  simp only [getLast?_pathText_iff h]
  split
  · rw [hl]
  · exact pathText_concat l []

theorem authority_closePath (u : Url) : u.closePath.authority = u.authority := by
  rw [closePath]
  split
  · split <;> rfl
  · repeat' split
    all_goals rfl

end WalletApi.Url
