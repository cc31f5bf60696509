import WalletApi.Proofs.Url.Closing

/-!
# Bases written with and without a slash at the end

A path is closed by a slash unless it ends in one, so it should not matter whether the text of a
base ends in a slash. For the text this is less plain than for the path: the slash may stand in
front of a query, the text may have no path at all, and its last piece may be a step within the
path. `WalletApi.Url.AddsSlash` relates two such texts, and the addresses that they write are the
same once they are closed (`WalletApi.Url.map_closePath_ofText`).

The slash is followed through the parts of the text: it changes neither the scheme
(`WalletApi.Url.scheme?_append`) nor the authority (`WalletApi.Url.withAuthority_of_isSpecial`), and
in the path it makes one more empty piece, which is the segment that closing adds
(`WalletApi.Url.walk_concat_nil`).
-/

namespace WalletApi.Url

/-! ### Closing segments -/

/-- Segments with an empty one at the end. -/
def closed (l : List (List Char)) : List (List Char) :=
  if l.getLast? = some [] then l else l ++ [[]]

theorem closed_concat_nil (l : List (List Char)) : closed (l ++ [[]]) = l ++ [[]] :=
  if_pos List.getLast?_concat

theorem closed_concat {last : List Char} (h : last ≠ []) (l : List (List Char)) :
    closed (l ++ [last]) = l ++ [last] ++ [[]] := by
  rw [closed, List.getLast?_concat, if_neg fun heq => h (Option.some.inj heq)]

theorem closed_closed (l : List (List Char)) : closed (closed l) = closed l := by
  by_cases h : l.getLast? = some []
  · have hclosed : closed l = l := if_pos h
    rw [hclosed, hclosed]
  · have hclosed : closed l = l ++ [[]] := if_neg h
    rw [hclosed, closed_concat_nil]

/-- Closing an address closes its segments. -/
theorem closePath_of_segments {u : Url} {l : List (List Char)} (h : u.path = .segments l) :
    u.closePath = { u with path := .segments (closed l) } := by
  rw [closePath, h, closed]
  simp only
  split
  · rw [← h]
  · rfl

/-! ### One more piece -/

/-- The pieces of two texts are those of the whole, except that the last one of the first text and
the first one of the second are one piece. -/
theorem splitAtSlashes_append_of_eq {special : Bool} {cs ds piece first : List Char}
    {pieces rest : List (List Char)} (hcs : splitAtSlashes special cs = pieces ++ [piece])
    (hds : splitAtSlashes special ds = first :: rest) :
    splitAtSlashes special (cs ++ ds) = pieces ++ (piece ++ first) :: rest := by
  induction cs generalizing pieces piece with
  | nil =>
    have hnil : [] ++ [[]] = pieces ++ [piece] := hcs
    obtain ⟨rfl, heq⟩ := List.append_inj' hnil rfl
    obtain rfl := (List.cons.inj heq).1
    exact hds
  | cons c cs ih =>
    by_cases hc : isSlash special c = true
    · rw [splitAtSlashes, if_pos hc] at hcs
      rw [List.cons_append, splitAtSlashes, if_pos hc]
      cases pieces with
      | nil => exact absurd (List.cons.inj hcs).2 (splitAtSlashes_ne_nil cs)
      | cons p pieces =>
        obtain ⟨rfl, hrest⟩ := List.cons.inj hcs
        rw [ih hrest, List.cons_append]
    · rw [Bool.not_eq_true] at hc
      obtain ⟨p, others, hp⟩ := List.exists_cons_of_ne_nil (splitAtSlashes_ne_nil cs)
      rw [splitAtSlashes_cons hc hp] at hcs
      rw [List.cons_append]
      -- The first piece of the rest gains the character, and it may be the last piece as well.
      cases pieces with
      | nil =>
        obtain ⟨rfl, rfl⟩ := List.cons.inj hcs
        have hlast : splitAtSlashes special cs = [] ++ [p] := hp
        exact splitAtSlashes_cons hc (ih hlast)
      | cons q pieces =>
        obtain ⟨rfl, rfl⟩ := List.cons.inj hcs
        have hlast : splitAtSlashes special cs = p :: pieces ++ [piece] := hp
        exact splitAtSlashes_cons hc (ih hlast)

/-- **An empty piece behind a walk closes the segments that it leaves**, if the last piece is not
empty itself. -/
theorem walk_concat_nil {piece : List Char} (hpiece : piece ≠ [])
    (pieces start : List (List Char)) :
    walk false start (pieces ++ [piece] ++ [[]]) =
      closed (walk false start (pieces ++ [piece])) := by
  have hempty : ∀ path, walk false path [[]] = path ++ [[]] := fun _ => rfl
  rw [List.append_assoc, walk_append start pieces (by simp), List.singleton_append,
    walk_cons _ _ (List.cons_ne_nil _ _), hempty, walk_append start pieces (List.cons_ne_nil _ _),
    walk_singleton]
  split
  · next hpoints =>
    rw [pass_of_points? hpoints, closed_concat (Percent.encode_ne_nil _ hpiece)]
  · rw [closed_concat_nil]

section Path

variable {scheme : List Char} (hspecial : isSpecial scheme = true) (hfile : scheme ≠ fileScheme)
  {slash : Char} (hslash : isSlash true slash = true) {cs : List Char}
  (hlast : ∀ c ∈ cs.getLast?, isSlash true c = false)

include hspecial hfile hslash hlast

/-- A slash at the end of a text that does not end in one closes the path. -/
theorem pathFrom_concat_slash (hne : cs ≠ []) : ∃ l, pathFrom scheme [] cs = .segments l ∧
    pathFrom scheme [] (cs ++ [slash]) = .segments (closed l) := by
  obtain ⟨front, last, rfl⟩ := (List.eq_nil_or_concat cs).resolve_left hne
  rw [List.concat_eq_append] at hlast ⊢
  have hkeep : isSlash true last = false := hlast last List.getLast?_concat
  obtain ⟨pieces, piece, hsplit, -, -⟩ := exists_last_splitAtSlashes true front
  -- The last character is in the last piece, so that piece is not empty.
  have hone : splitAtSlashes true [last] = [[last]] :=
    splitAtSlashes_of_forall (List.forall_mem_singleton.mpr hkeep)
  have hfront : splitAtSlashes true (front ++ [last]) = pieces ++ [piece ++ [last]] :=
    splitAtSlashes_append_of_eq hsplit hone
  have hsingle : splitAtSlashes true [slash] = [[], []] := by
    rw [splitAtSlashes, if_pos hslash]
    rfl
  have hmore : splitAtSlashes true (front ++ [last] ++ [slash]) =
      pieces ++ [piece ++ [last]] ++ [[]] := by
    rw [splitAtSlashes_append_of_eq hfront hsingle, List.append_nil, List.append_cons]
  refine ⟨_, pathFrom_of_ne_file hfile [] _, ?_⟩
  rw [pathFrom_of_ne_file hfile, hspecial, hmore, hfront,
    walk_concat_nil (List.append_ne_nil_of_right_ne_nil piece (List.cons_ne_nil last []))]

/-- **So it does behind an authority**, where there may be no path. -/
theorem pathAfterAuthority_concat_slash : ∃ l, pathAfterAuthority scheme cs = .segments l ∧
    pathAfterAuthority scheme (cs ++ [slash]) = .segments (closed l) := by
  cases cs with
  | nil =>
    refine ⟨[[]], ?_, ?_⟩
    · rw [pathAfterAuthority, if_pos hspecial]
    · rw [List.nil_append, pathAfterAuthority, hspecial, if_pos hslash, pathFrom_of_ne_file hfile]
      rfl
  | cons c rest =>
    rw [List.cons_append, pathAfterAuthority, pathAfterAuthority, hspecial]
    by_cases hc : isSlash true c = true
    · -- A text of one slash would end in it.
      have hne : rest ≠ [] := by
        rintro rfl
        exact absurd (hc.symm.trans (hlast c rfl)) Bool.noConfusion
      have hrest : ∀ d ∈ rest.getLast?, isSlash true d = false := fun d hd => by
        rw [← List.singleton_append] at hlast
        exact hlast d (List.mem_getLast?_append_of_mem_getLast? hd)
      rw [if_pos hc, if_pos hc]
      exact pathFrom_concat_slash hspecial hfile hslash hrest hne
    · rw [if_neg hc, if_neg hc, ← List.cons_append]
      exact pathFrom_concat_slash hspecial hfile hslash hlast (List.cons_ne_nil c rest)

end Path

/-! ### Texts with and without the slash -/

theorem eq_or_eq_of_isSlash {c : Char} (h : isSlash true c = true) : c = '/' ∨ c = '\\' := by
  simpa [isSlash] using h

theorem beginsTail_of_isSlash {c : Char} (h : isSlash true c = true) : beginsTail c = false := by
  rcases eq_or_eq_of_isSlash h with rfl | rfl <;> rfl

theorem endsScheme_of_isSlash {c : Char} (h : isSlash true c = true) : endsScheme c = true := by
  rcases eq_or_eq_of_isSlash h with rfl | rfl <;> rfl

section Slash

variable {slash : Char} (hslash : isSlash true slash = true)

include hslash

theorem not_isSlash_of_head? : ∀ c ∈ [slash].head?, (!isSlash true c) = false := by
  intro c hc
  obtain rfl := Option.some.inj hc
  rw [hslash]
  rfl

theorem beforeSlash_concat (cs : List Char) :
    beforeSlash true (cs ++ [slash]) = beforeSlash true cs :=
  takeWhile_append_of_head? (not_isSlash_of_head? hslash) cs

theorem fromSlash_concat (cs : List Char) :
    fromSlash true (cs ++ [slash]) = fromSlash true cs ++ [slash] :=
  dropWhile_append_of_head? (not_isSlash_of_head? hslash) cs

end Slash

/-- The text of the path behind an authority does not end in a slash if the whole text does not. -/
theorem getLast?_path_of_authorityOf {scheme front : List Char} {p : Authority × List Char}
    (h : authorityOf scheme (splitAtLast '@' (beforeSlash true front)) = .ok p)
    (hlast : ∀ c ∈ front.getLast?, isSlash true c = false) :
    ∀ c ∈ (p.2 ++ fromSlash true front).getLast?, isSlash true c = false := by
  intro c hc
  have hfront : beforeSlash true front ++ fromSlash true front = front :=
    List.takeWhile_append_dropWhile
  rw [List.getLast?_append] at hc
  cases hpath : (fromSlash true front).getLast? with
  | some d =>
    rw [hpath, Option.some_or] at hc
    refine hlast c ?_
    rw [← hfront]
    exact List.mem_getLast?_append_of_mem_getLast? (hpath.trans hc)
  | none =>
    -- All of the text is in front of the first slash.
    rw [hpath, Option.none_or] at hc
    have hmem : c ∈ beforeSlash true front :=
      ((authorityOf_sublist h).trans (splitAtLast_sublist '@' _)).subset (List.mem_of_getLast? hc)
    simpa using List.mem_takeWhile_imp hmem

/-- **Behind the scheme, a slash at the end of the path makes no difference once the path is
closed.** -/
theorem map_closePath_withAuthority {scheme : List Char} (hspecial : isSpecial scheme = true)
    (hfile : scheme ≠ fileScheme) {slash : Char} (hslash : isSlash true slash = true)
    {front tail : List Char} (hfront : ∀ c ∈ front, beginsTail c = false)
    (htail : ∀ c ∈ tail.head?, beginsTail c = true)
    (hlast : ∀ c ∈ front.getLast?, isSlash true c = false) :
    (withAuthority scheme (front ++ tail)).map closePath =
      (withAuthority scheme (front ++ slash :: tail)).map closePath := by
  have hfront' : ∀ c ∈ front ++ [slash], beginsTail c = false := by
    intro c hc
    rcases List.mem_append.mp hc with hc | hc
    · exact hfront c hc
    · exact List.mem_singleton.mp hc ▸ beginsTail_of_isSlash hslash
  rw [List.append_cons, withAuthority_of_isSpecial hspecial, withAuthority_of_isSpecial hspecial,
    hspecial, beforeTail_append hfront htail, beforeTail_append hfront' htail,
    beforeSlash_concat hslash, fromSlash_concat hslash, queryOf_append hfront,
    queryOf_append hfront', fragmentOf_append hfront, fragmentOf_append hfront']
  cases hauthority : authorityOf scheme (splitAtLast '@' (beforeSlash true front)) with
  | error e => rfl
  | ok p =>
    obtain ⟨l, hl, hl'⟩ := pathAfterAuthority_concat_slash hspecial hfile hslash
      (getLast?_path_of_authorityOf hauthority hlast)
    rw [List.append_assoc] at hl'
    refine congrArg Except.ok ?_
    rw [closePath_of_segments hl, closePath_of_segments hl', closed_closed]

/-- A slash at the end of the path makes no difference behind the scheme either. -/
theorem map_closePath_absolute {scheme : List Char} (hspecial : isSpecial scheme = true)
    (hfile : scheme ≠ fileScheme) {slash : Char} (hslash : isSlash true slash = true)
    {front tail : List Char} (hfront : ∀ c ∈ front, beginsTail c = false)
    (htail : ∀ c ∈ tail.head?, beginsTail c = true)
    (hlast : ∀ c ∈ front.getLast?, isSlash true c = false) :
    (absolute none scheme (front ++ tail)).map closePath =
      (absolute none scheme (front ++ slash :: tail)).map closePath := by
  rw [absolute_of_isSpecial hspecial hfile, absolute_of_isSpecial hspecial hfile,
    List.dropWhile_append, List.dropWhile_append]
  split
  · -- There are only slashes behind the scheme, and one more does not count.
    rw [List.dropWhile_cons_of_pos hslash]
  · obtain ⟨slashes, hslashes⟩ := List.dropWhile_suffix (l := front) (isSlash true)
    refine map_closePath_withAuthority hspecial hfile hslash (fun c hc => hfront c ?_) htail
      fun c hc => hlast c ?_
    · exact (List.dropWhile_sublist _).subset hc
    · rw [← hslashes]
      exact List.mem_getLast?_append_of_mem_getLast? hc

/-! ### Whole texts -/

/-- **The second text has one more slash, at the end of its path**, where the first one has none. A
backslash will do. -/
structure AddsSlash (s s' : String) : Prop where
  path : ∃ slash, isSlash true slash = true ∧
    beforeTail (cleaned s') = beforeTail (cleaned s) ++ [slash]
  tail : tailOf (cleaned s') = tailOf (cleaned s)
  unclosed : ∀ c ∈ (beforeTail (cleaned s)).getLast?, isSlash true c = false

/-- **Two such texts write the same address once it is closed**, where one of them writes an address
of a scheme with servers. -/
theorem map_closePath_ofText {s s' : String} (h : AddsSlash s s') {u : Url}
    (hu : ofText s = .ok u ∨ ofText s' = .ok u) (hspecial : isSpecial u.scheme = true)
    (hfile : u.scheme ≠ fileScheme) : (ofText s).map closePath = (ofText s').map closePath := by
  obtain ⟨⟨slash, hslash, hpath⟩, htail, hlast⟩ := h
  have hs : cleaned s = beforeTail (cleaned s) ++ tailOf (cleaned s) :=
    (beforeTail_append_tailOf _).symm
  have hs' : cleaned s' = beforeTail (cleaned s) ++ slash :: tailOf (cleaned s) := by
    rw [← beforeTail_append_tailOf (cleaned s'), hpath, htail, List.append_assoc]
    rfl
  have hfront : ∀ c ∈ beforeTail (cleaned s), beginsTail c = false :=
    fun _ hc => beginsTail_of_mem_beforeTail hc
  have hbegins : ∀ c ∈ (tailOf (cleaned s)).head?, beginsTail c = true :=
    fun _ hc => beginsTail_of_head?_tailOf hc
  generalize beforeTail (cleaned s) = front at *
  generalize tailOf (cleaned s) = tail at *
  have hends : ∀ c ∈ tail.head?, endsScheme c = true := fun c hc =>
    endsScheme_of_beginsTail (hbegins c hc)
  have hends' : ∀ c ∈ (slash :: tail).head?, endsScheme c = true := fun c hc =>
    Option.some.inj hc ▸ endsScheme_of_isSlash hslash
  -- Both texts have the scheme of what they share.
  obtain ⟨rest, hfound⟩ : ∃ rest, scheme? front = some (u.scheme, rest) := by
    rcases hu with hu | hu
    · obtain ⟨_, hrest⟩ := exists_scheme?_of_ofText hu
      exact exists_scheme?_of_append hends (hs ▸ hrest)
    · obtain ⟨_, hrest⟩ := exists_scheme?_of_ofText hu
      exact exists_scheme?_of_append hends' (hs' ▸ hrest)
  obtain ⟨scheme, hscheme⟩ := suffix_of_scheme? hfound
  rw [ofText, ofText, resolve, resolve]
  simp only [hs, hs', scheme?_append front hends, scheme?_append front hends', hfound,
    Option.map_some]
  refine map_closePath_absolute hspecial hfile hslash (fun c hc => hfront c ?_) hbegins
    fun c hc => hlast c ?_
  · exact hscheme ▸ List.mem_append_right scheme hc
  · exact hscheme ▸ List.mem_getLast?_append_of_mem_getLast? hc

end WalletApi.Url
