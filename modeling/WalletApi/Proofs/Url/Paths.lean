import WalletApi.Proofs.Url.Percent
import WalletApi.Proofs.Url.Parts

/-!
# Paths of what is resolved below a base

A base whose path is closed by a slash (`WalletApi.Url.IsBase`) keeps the whole of it: what is
resolved against it begins where the last, empty segment stands.

A text without a scheme is cleaned, cut off at its query or fragment and split at its slashes, and
the pieces are steps of a walk that starts from the segments of the base. Where none of the pieces
is a step of one or two points, the walk adds them all, encoded, and nothing else
(`WalletApi.Url.IsBase.resolve_of_pieces`). In any case the last segment that it leaves is either
empty or made of the last piece (`WalletApi.Url.exists_last_walk`), which is a part of the text
(`WalletApi.Url.exists_last_splitAtSlashes`).
-/

namespace WalletApi.Url

/-! ### What cleaning leaves -/

/-- The characters that are taken out wherever they stand. -/
def dropped : List Char := ['\t', '\n', '\r']

theorem filter_dropped (cs : List Char) :
    (cs.filter fun c => !(c == '\t' || c == '\n' || c == '\r')) = cs.filter (· ∉ dropped) := by
  refine List.filter_congr fun c _ => ?_
  simp only [dropped, List.mem_cons, List.not_mem_nil, or_false, not_or, Bool.not_or,
    Bool.decide_and, Bool.and_assoc, decide_not, beq_eq_decide]

theorem cleaned_sublist (s : String) : (cleaned s).Sublist s.toList := by
  rw [cleaned]
  refine List.filter_sublist.trans ?_
  exact (List.reverse_sublist.mpr (List.dropWhile_sublist _)).trans
    ((List.reverse_reverse _).symm ▸ List.dropWhile_sublist _)

theorem notMem_dropped_of_mem_cleaned {s : String} {c : Char} (h : c ∈ cleaned s) :
    c ∉ dropped := by
  rw [cleaned, filter_dropped] at h
  simpa using (List.mem_filter.mp h).2

/-- The text that is left does not end in a blank or a control character. -/
theorem lt_of_getLast?_cleaned {s : String} {c : Char} (h : (cleaned s).getLast? = some c) :
    0x20 < c.toNat := by
  rw [cleaned, filter_dropped] at h
  generalize hinner : (s.toList.dropWhile fun c => decide (c.toNat ≤ 0x20)).reverse = inner at h
  cases htrimmed : inner.dropWhile fun c => decide (c.toNat ≤ 0x20) with
  | nil =>
    rw [htrimmed] at h
    cases h
  | cons d rest =>
    -- The last character is no blank, so taking out tabs and line ends leaves it.
    have hnot := List.head?_dropWhile_not (fun c : Char => decide (c.toNat ≤ 0x20)) inner
    rw [htrimmed] at hnot
    have hd : 0x20 < d.toNat := by simpa using hnot
    have hkept : [d].filter (· ∉ dropped) = [d] := by
      refine List.filter_cons_of_pos (decide_eq_true fun hmem => ?_)
      rcases List.mem_cons.mp hmem with rfl | hmem
      · exact absurd hd (by decide)
      · rcases List.mem_pair.mp hmem with rfl | rfl
        · exact absurd hd (by decide)
        · exact absurd hd (by decide)
    rw [htrimmed, List.reverse_cons, List.filter_append, hkept, List.getLast?_append,
      List.getLast?_singleton, Option.some_or] at h
    exact Option.some.inj h ▸ hd

/-- A text without blanks at its ends and without tabs and line ends is left as it is. -/
theorem cleaned_eq_self {s : String} (hfirst : ∀ c ∈ s.toList.head?, 0x20 < c.toNat)
    (hlast : ∀ c ∈ s.toList.getLast?, 0x20 < c.toNat) (hinside : ∀ c ∈ s.toList, c ∉ dropped) :
    cleaned s = s.toList := by
  have hkeep : ∀ cs : List Char, (∀ c ∈ cs.head?, 0x20 < c.toNat) →
      cs.dropWhile (fun c => decide (c.toNat ≤ 0x20)) = cs := by
    intro cs hcs
    cases cs with
    | nil => rfl
    | cons c cs =>
      have hc := hcs c rfl
      exact List.dropWhile_cons_of_neg (by simp only [decide_eq_true_eq]; omega)
  rw [cleaned, filter_dropped]
  simp only [hkeep _ hfirst]
  rw [hkeep s.toList.reverse (by rwa [List.head?_reverse]), List.reverse_reverse]
  exact List.filter_eq_self.mpr fun c hc => decide_eq_true (hinside c hc)

/-! ### Pieces -/

section Pieces

variable {special : Bool}

theorem splitAtSlashes_ne_nil (cs : List Char) : splitAtSlashes special cs ≠ [] := by
  cases cs with
  | nil => exact List.cons_ne_nil _ _
  | cons c cs =>
    rw [splitAtSlashes]
    split
    · exact List.cons_ne_nil _ _
    · split
      · exact List.cons_ne_nil _ _
      · exact List.cons_ne_nil _ _

theorem splitAtSlashes_cons {c : Char} (hc : isSlash special c = false) {cs piece : List Char}
    {pieces : List (List Char)} (h : splitAtSlashes special cs = piece :: pieces) :
    splitAtSlashes special (c :: cs) = (c :: piece) :: pieces := by
  rw [splitAtSlashes, if_neg (by rw [hc]; exact Bool.false_ne_true), h]

/-- A text without slashes is one piece. -/
theorem splitAtSlashes_of_forall {cs : List Char} (h : ∀ c ∈ cs, isSlash special c = false) :
    splitAtSlashes special cs = [cs] := by
  induction cs with
  | nil => rfl
  | cons c cs ih =>
    rw [List.forall_mem_cons] at h
    exact splitAtSlashes_cons h.1 (ih h.2)

/-- What stands before the first slash is the first piece. -/
theorem splitAtSlashes_append {name : List Char} (h : ∀ c ∈ name, isSlash special c = false)
    (tail : List Char) :
    splitAtSlashes special (name ++ '/' :: tail) = name :: splitAtSlashes special tail := by
  induction name with
  | nil => rfl
  | cons c name ih =>
    rw [List.forall_mem_cons] at h
    exact splitAtSlashes_cons h.1 (ih h.2)

theorem isSlash_of_mem_splitAtSlashes {cs piece : List Char}
    (h : piece ∈ splitAtSlashes special cs) : ∀ c ∈ piece, isSlash special c = false := by
  induction cs generalizing piece with
  | nil =>
    rw [List.mem_singleton.mp h]
    exact fun c hc => absurd hc List.not_mem_nil
  | cons c cs ih =>
    by_cases hc : isSlash special c = true
    · rw [splitAtSlashes, if_pos hc] at h
      rcases List.mem_cons.mp h with rfl | h
      · exact fun c hc => absurd hc List.not_mem_nil
      · exact ih h
    · rw [Bool.not_eq_true] at hc
      obtain ⟨first, others, hsplit⟩ := List.exists_cons_of_ne_nil (splitAtSlashes_ne_nil cs)
      rw [splitAtSlashes_cons hc hsplit] at h
      rw [hsplit] at ih
      rcases List.mem_cons.mp h with rfl | h
      · exact List.forall_mem_cons.mpr ⟨hc, ih List.mem_cons_self⟩
      · exact ih (List.mem_cons_of_mem _ h)

/-- The last piece ends the text, and it is the whole text if it is the only one. -/
theorem exists_last_splitAtSlashes (special : Bool) (cs : List Char) :
    ∃ pieces piece, splitAtSlashes special cs = pieces ++ [piece] ∧ piece <:+ cs ∧
      (pieces = [] → piece = cs) := by
  induction cs with
  | nil => exact ⟨[], [], rfl, List.suffix_refl _, fun _ => rfl⟩
  | cons c cs ih =>
    obtain ⟨pieces, piece, hsplit, hsuffix, honly⟩ := ih
    by_cases hc : isSlash special c = true
    · refine ⟨[] :: pieces, piece, ?_, hsuffix.trans (List.suffix_cons c cs), ?_⟩
      · rw [splitAtSlashes, if_pos hc, hsplit, List.cons_append]
      · exact fun h => absurd h (List.cons_ne_nil _ _)
    · rw [Bool.not_eq_true] at hc
      cases pieces with
      | nil =>
        obtain rfl := honly rfl
        exact ⟨[], c :: piece, splitAtSlashes_cons hc hsplit, List.suffix_refl _, fun _ => rfl⟩
      | cons first pieces =>
        exact ⟨(c :: first) :: pieces, piece, splitAtSlashes_cons hc hsplit,
          hsuffix.trans (List.suffix_cons c cs), fun h => absurd h (List.cons_ne_nil _ _)⟩

end Pieces

/-! ### Walks -/

/-- The path from which a walk goes on after a piece that others follow. -/
def pass (file : Bool) (path : List (List Char)) (piece : List Char) : List (List Char) :=
  match points? piece with
  | some 1 => path
  | some _ => ascend path
  | none => extend file path piece

section Pass

variable {file : Bool} (start : List (List Char)) (piece : List Char)

theorem walk_cons {more : List (List Char)} (hmore : more ≠ []) :
    walk file start (piece :: more) = walk file (pass file start piece) more := by
  rw [walk.eq_3 _ _ _ _ hmore, pass]
  match points? piece with
  | none => rfl
  | some 0 => rfl
  | some 1 => rfl
  | some (n + 2) => rfl

/-- The last piece leaves an empty segment where it is a step. -/
theorem walk_singleton : walk file start [piece] =
    if points? piece = none then pass file start piece else pass file start piece ++ [[]] := by
  rw [walk, pass]
  match points? piece with
  | none => rfl
  | some 0 => rfl
  | some 1 => rfl
  | some (n + 2) => rfl

theorem walk_append (pieces : List (List Char)) {more : List (List Char)} (hmore : more ≠ []) :
    walk file start (pieces ++ more) = walk file (pieces.foldl (pass file) start) more := by
  induction pieces generalizing start with
  | nil => rfl
  | cons piece pieces ih =>
    rw [List.cons_append, walk_cons _ _ (List.append_ne_nil_of_right_ne_nil pieces hmore), ih,
      List.foldl_cons]

end Pass

/-- A piece that is no step becomes a segment. -/
theorem pass_of_points? {piece : List Char} (h : points? piece = none)
    (start : List (List Char)) :
    pass false start piece = start ++ [Percent.encode Percent.pathSet piece] := by
  rw [pass, h]
  rfl

/-- **A walk over pieces that are no steps adds all of them.** -/
theorem walk_of_points? {pieces : List (List Char)} (h : ∀ piece ∈ pieces, points? piece = none)
    (start : List (List Char)) :
    walk false start pieces = start ++ pieces.map (Percent.encode Percent.pathSet) := by
  induction pieces generalizing start with
  | nil => rw [walk, List.map_nil, List.append_nil]
  | cons piece pieces ih =>
    rw [List.forall_mem_cons] at h
    rw [List.map_cons, List.append_cons, ← pass_of_points? h.1]
    cases pieces with
    | nil => rw [walk_singleton, if_pos h.1, List.map_nil, List.append_nil]
    | cons next pieces => rw [walk_cons _ _ (List.cons_ne_nil _ _), ih h.2]

/-- **The last segment that a walk leaves** is empty, after a step, or made of the last piece. -/
theorem exists_last_walk (pieces : List (List Char)) (piece : List Char)
    (start : List (List Char)) :
    ∃ path last, walk false start (pieces ++ [piece]) = path ++ [last] ∧
      (last = [] ∨ points? piece = none ∧ last = Percent.encode Percent.pathSet piece) := by
  rw [walk_append start pieces (List.cons_ne_nil _ _), walk_singleton]
  split
  · next hpoints => exact ⟨_, _, pass_of_points? hpoints _, .inr ⟨hpoints, rfl⟩⟩
  · exact ⟨_, _, rfl, .inl rfl⟩

/-! ### Bases -/

/-- The path of an address is closed by a slash after some segments, and the address is no file. -/
def IsBase (u : Url) (l : List (List Char)) : Prop :=
  u.scheme ≠ fileScheme ∧ u.path = .segments (l ++ [[]])

theorem IsBase.isHierarchical {u : Url} {l : List (List Char)} (h : u.IsBase l) :
    u.IsHierarchical := ⟨h.1, _, h.2⟩

theorem exists_isBase_closePath {u : Url} (h : u.IsHierarchical) : ∃ l, u.closePath.IsBase l := by
  obtain ⟨hfile, l, hl⟩ := h
  rw [closePath, hl]
  simp only
  split
  · next hlast =>
    refine ⟨l.dropLast, hfile, ?_⟩
    rw [hl, List.dropLast_append_getLast? [] hlast]
  · exact ⟨l, hfile, rfl⟩

theorem pathText_append (l l' : List (List Char)) :
    pathText (.segments (l ++ l')) = pathText (.segments l) ++ pathText (.segments l') :=
  List.flatMap_append

/-- The text of a path, up to its last segment. -/
theorem pathText_concat (l : List (List Char)) (last : List Char) :
    pathText (.segments (l ++ [last])) = pathText (.segments l) ++ '/' :: last := by
  rw [pathText_append]
  exact congrArg (_ ++ ·) (List.append_nil _)

/-- Segments below a base are written behind its path. -/
theorem IsBase.pathText_below {u : Url} {l pieces : List (List Char)} (h : u.IsBase l)
    {endpoint : List Char} (hpieces : pathText (.segments pieces) = '/' :: endpoint) :
    pathText (.segments (l ++ pieces)) = pathText u.path ++ endpoint := by
  rw [h.2, pathText_concat, pathText_append, hpieces, List.append_cons]

theorem pathFrom_of_ne_file {scheme : List Char} (h : scheme ≠ fileScheme)
    (start : List (List Char)) (cs : List Char) :
    pathFrom scheme start cs =
      .segments (walk false start (splitAtSlashes (isSpecial scheme) cs)) := by
  have hfile : (scheme == fileScheme) = false := beq_eq_false_iff_ne.mpr h
  rw [pathFrom, hfile]
  rfl

theorem queryOf_of_forall (special : Bool) {cs : List Char}
    (h : ∀ c ∈ cs, beginsTail c = false) : queryOf special cs = none := by
  rw [← List.append_nil cs, queryOf_append h]
  rfl

theorem fragmentOf_of_forall {cs : List Char} (h : ∀ c ∈ cs, beginsTail c = false) :
    fragmentOf cs = none := by
  rw [← List.append_nil cs, fragmentOf_append h]
  rfl

theorem beforeTail_of_forall {cs : List Char} (h : ∀ c ∈ cs, beginsTail c = false) :
    beforeTail cs = cs :=
  List.takeWhile_eq_self_iff.mpr fun c hc => by rw [h c hc]; rfl

section Base

variable {base : Url} {l : List (List Char)} (hbase : base.IsBase l) {s : String} {c : Char}
  {rest : List Char} (hs : cleaned s = c :: rest) (hc : c.isAlpha = true)
  (hscheme : scheme? (c :: rest) = none)

include hbase hs hc hscheme

/-- What is resolved against a base is walked from the segments of the base. -/
theorem IsBase.resolve_of_letter :
    resolve (some base) s = .ok { base with
      path := .segments
        (walk false l (splitAtSlashes (isSpecial base.scheme) (beforeTail (c :: rest))))
      query := queryOf (isSpecial base.scheme) (c :: rest)
      fragment := fragmentOf (c :: rest) } := by
  obtain ⟨hfile, hpath⟩ := hbase
  rw [Url.resolve_of_letter hpath hfile hs hc hscheme, List.dropLast_concat,
    pathFrom_of_ne_file hfile]

/-- **Pieces that are no steps go below the base as they are**, and there is nothing else. -/
theorem IsBase.resolve_of_pieces (htail : ∀ d ∈ c :: rest, beginsTail d = false)
    (hpieces : ∀ piece ∈ splitAtSlashes (isSpecial base.scheme) (c :: rest),
      points? piece = none) :
    resolve (some base) s = .ok { base with
      path := .segments (l ++ (splitAtSlashes (isSpecial base.scheme) (c :: rest)).map
        (Percent.encode Percent.pathSet))
      query := none
      fragment := none } := by
  rw [hbase.resolve_of_letter hs hc hscheme, beforeTail_of_forall htail,
    queryOf_of_forall _ htail, fragmentOf_of_forall htail, walk_of_points? hpieces]

end Base

end WalletApi.Url
