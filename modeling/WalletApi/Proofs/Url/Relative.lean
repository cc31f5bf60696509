import Mathlib.Data.List.TakeWhile
import WalletApi.Proofs.Results
import WalletApi.Url.Reading

/-!
# Resolving below a base

A base whose path consists of segments can be resolved against, and a text that begins with a name
and a slash, or is a name alone, has no scheme of its own. So resolving such a text never fails: it
takes the place of the last segment of the base (`WalletApi.Url.exists_resolve_of_name`). Addresses
of schemes with servers have segments (`WalletApi.Url.isHierarchical_of_ofText`), which makes them
such bases.
-/

namespace WalletApi.Url

/-! ### Addresses with segments -/

/-- The path of an address consists of segments, and the address is no file. -/
def IsHierarchical (u : Url) : Prop := u.scheme ≠ fileScheme ∧ ∃ l, u.path = .segments l

theorem exists_pathAfterAuthority (scheme cs : List Char) :
    ∃ l, pathAfterAuthority scheme cs = .segments l := by
  cases cs with
  | nil =>
    rw [pathAfterAuthority]
    split
    · exact ⟨_, rfl⟩
    · exact ⟨_, rfl⟩
  | cons c rest =>
    rw [pathAfterAuthority]
    split
    · exact ⟨_, rfl⟩
    · exact ⟨_, rfl⟩

/-- An address with an authority keeps its scheme, and its path is what follows the authority. -/
theorem withAuthority_eq_ok {scheme cs : List Char} {u : Url}
    (h : withAuthority scheme cs = .ok u) :
    u.scheme = scheme ∧ ∃ rest, u.path = pathAfterAuthority u.scheme rest := by
  simp only [withAuthority] at h
  split at h
  · exact nomatch h
  · obtain ⟨host, -, h⟩ := bind_eq_ok.mp h
    split at h
    · exact nomatch h
    · split at h
      · obtain rfl := Except.ok.inj h
        exact ⟨rfl, _, rfl⟩
      · obtain ⟨port, -, h⟩ := bind_eq_ok.mp h
        obtain rfl := Except.ok.inj h
        exact ⟨rfl, _, rfl⟩

theorem fileOnHost_eq_ok {cs : List Char} {u : Url} (h : fileOnHost cs = .ok u) :
    u.scheme = fileScheme := by
  simp only [fileOnHost] at h
  split at h
  · obtain rfl := Except.ok.inj h
    rfl
  · split at h
    · obtain ⟨host, -, h⟩ := bind_eq_ok.mp h
      obtain rfl := Except.ok.inj h
      rfl
    · split at h
      · obtain ⟨host, -, h⟩ := bind_eq_ok.mp h
        obtain rfl := Except.ok.inj h
        rfl
      · exact nomatch h

/-- An address of a file has the scheme of files. -/
theorem file_eq_ok {cs : List Char} {u : Url} (h : file none cs = .ok u) :
    u.scheme = fileScheme := by
  have hroot : ∀ rest : List Char, file.fileAtRoot none rest = .ok u → u.scheme = fileScheme :=
    fun rest h => by
      obtain rfl := Except.ok.inj h
      rfl
  rw [file.eq_def] at h
  split at h
  · split at h
    · exact fileOnHost_eq_ok h
    · split at h
      · exact hroot _ h
      · obtain rfl := Except.ok.inj h
        rfl
  · split at h
    · exact hroot _ h
    · obtain rfl := Except.ok.inj h
      rfl
  · next heq => exact nomatch heq
  · obtain rfl := Except.ok.inj h
    rfl

/-- The path of an address of a scheme with servers, other than a file, follows an authority. -/
theorem exists_path_of_ofText {s : String} {u : Url} (h : ofText s = .ok u)
    (hspecial : isSpecial u.scheme = true) (hfile : u.scheme ≠ fileScheme) :
    ∃ rest, u.path = pathAfterAuthority u.scheme rest := by
  simp only [ofText, resolve] at h
  split at h
  · next scheme rest _ =>
    rw [absolute.eq_def] at h
    by_cases hscheme : scheme = fileScheme
    · rw [if_pos hscheme] at h
      exact absurd (file_eq_ok h) hfile
    · rw [if_neg hscheme] at h
      by_cases hserver : isSpecial scheme = true
      · rw [if_pos hserver] at h
        exact (withAuthority_eq_ok h).2
      · rw [if_neg hserver] at h
        split at h
        · exact (withAuthority_eq_ok h).2
        · obtain rfl := Except.ok.inj h
          exact absurd hspecial hserver
  · exact nomatch h

/-- **An address of a scheme with servers, other than a file, has segments.** -/
theorem isHierarchical_of_ofText {s : String} {u : Url} (h : ofText s = .ok u)
    (hspecial : isSpecial u.scheme = true) (hfile : u.scheme ≠ fileScheme) :
    u.IsHierarchical := by
  obtain ⟨rest, hpath⟩ := exists_path_of_ofText h hspecial hfile
  obtain ⟨l, hl⟩ := exists_pathAfterAuthority u.scheme rest
  exact ⟨hfile, l, hpath.trans hl⟩

theorem scheme_closePath (u : Url) : u.closePath.scheme = u.scheme := by
  rw [closePath]
  split
  · split <;> rfl
  · repeat' split
    all_goals rfl

theorem isHierarchical_closePath {u : Url} (h : u.IsHierarchical) :
    u.closePath.IsHierarchical := by
  obtain ⟨hfile, l, hl⟩ := h
  rw [closePath, hl]
  simp only
  split
  · exact ⟨hfile, l, hl⟩
  · exact ⟨hfile, _, rfl⟩

/-! ### Texts that begin with a name -/

theorem lt_of_isAlpha {c : Char} (h : c.isAlpha = true) : 0x20 < c.toNat := by
  have hcase : (c.isUpper || c.isLower) = true := h
  rcases Bool.or_eq_true_iff.mp hcase with hupper | hlower
  · have hbounds : 'A'.val ≤ c.val ∧ c.val ≤ 'Z'.val := of_decide_eq_true hupper
    exact Nat.lt_of_lt_of_le (by decide) (UInt32.le_iff_toNat_le.mp hbounds.1)
  · have hbounds : (decide ('a'.val ≤ c.val) && decide (c.val ≤ 'z'.val)) = true := hlower
    have hle : 'a'.val ≤ c.val := of_decide_eq_true (Bool.and_eq_true_iff.mp hbounds).1
    exact Nat.lt_of_lt_of_le (by decide) (UInt32.le_iff_toNat_le.mp hle)

section Cleaning

variable {front : List Char} (hfront : ∀ c ∈ front, 0x20 < c.toNat)

include hfront

theorem dropWhile_blank_of_front :
    front.dropWhile (fun c => decide (c.toNat ≤ 0x20)) = front := by
  refine List.dropWhile_eq_self_iff.mpr fun hpos => ?_
  have hlt := hfront _ (List.getElem_mem hpos)
  simp only [decide_eq_true_eq, Nat.not_le]
  exact hlt

theorem filter_of_front :
    front.filter (fun c => !(c == '\t' || c == '\n' || c == '\r')) = front := by
  refine List.filter_eq_self.mpr fun c hc => ?_
  have hlt := hfront c hc
  have hne : ∀ d : Char, d.toNat ≤ 0x20 → (c == d) = false := fun d hd =>
    beq_eq_false_iff_ne.mpr fun heq => by rw [heq] at hlt; omega
  rw [hne '\t' (by decide), hne '\n' (by decide), hne '\r' (by decide)]
  rfl

/-- Cleaning keeps a front without blanks and control characters, and adds nothing to it. -/
theorem cleaned_of_front (hne : front ≠ []) {s : String} {tail : List Char}
    (hs : s.toList = front ++ tail) : ∃ tail', cleaned s = front ++ tail' := by
  have hreverse : ∀ c ∈ front.reverse, 0x20 < c.toNat := fun c hc =>
    hfront c (List.mem_reverse.mp hc)
  have hstart : (front ++ tail).dropWhile (fun c => decide (c.toNat ≤ 0x20)) = front ++ tail := by
    have hempty : (front.dropWhile fun c => decide (c.toNat ≤ 0x20)).isEmpty = false := by
      rw [dropWhile_blank_of_front hfront]
      exact List.isEmpty_eq_false_iff.mpr hne
    rw [List.dropWhile_append, hempty, dropWhile_blank_of_front hfront]
    rfl
  rw [cleaned]
  simp only [hs, hstart, List.reverse_append]
  -- Trimming the end either stays within the tail or takes all of it and stops at the front.
  rw [List.dropWhile_append, dropWhile_blank_of_front hreverse]
  split
  · exact ⟨[], by rw [List.reverse_reverse, filter_of_front hfront, List.append_nil]⟩
  · rw [List.reverse_append, List.reverse_reverse, List.filter_append, filter_of_front hfront]
    exact ⟨_, rfl⟩

end Cleaning

/-- A name and a slash are no scheme. -/
theorem scheme?_of_name {name : List Char} (hname : ∀ c ∈ name, c.isAlpha = true)
    (tail : List Char) : scheme? (name ++ '/' :: tail) = none := by
  cases name with
  | nil => rfl
  | cons first rest =>
    have hdrop : ((first :: rest) ++ '/' :: tail).dropWhile
        (fun c => c.isAlphanum || c == '+' || c == '-' || c == '.') = '/' :: tail := by
      rw [List.dropWhile_append_of_pos fun c hc => by simp [Char.isAlphanum, hname c hc]]
      rfl
    rw [List.cons_append] at hdrop ⊢
    simp only [scheme?, hdrop]
    split <;> rfl

/-- **Resolving a text that begins with a letter and has no scheme** puts it in the place of the
last segment of the base. -/
theorem resolve_of_letter {base : Url} {l : List (List Char)} (hpath : base.path = .segments l)
    (hfile : base.scheme ≠ fileScheme) {s : String} {c : Char} {rest : List Char}
    (hs : cleaned s = c :: rest) (hc : c.isAlpha = true) (hscheme : scheme? (c :: rest) = none) :
    resolve (some base) s = .ok { base with
      path := pathFrom base.scheme l.dropLast (beforeTail (c :: rest))
      query := queryOf (isSpecial base.scheme) (c :: rest)
      fragment := fragmentOf (c :: rest) } := by
  have hne : ∀ d : Char, d.isAlpha = false → c ≠ d := fun d hd heq => by
    rw [heq, hd] at hc
    exact nomatch hc
  have hslash : isSlash true c = false := by
    simp [isSlash, hne '/' (by decide), hne '\\' (by decide)]
  rw [resolve]
  simp only [hs, hscheme, List.head?_cons, Option.some.injEq, hne '#' (by decide), if_false, hpath,
    hfile, relative, hne '?' (by decide), hslash, Bool.false_eq_true, segments]

/-- **Resolving a name and what follows its slash never fails** against a base with segments. -/
theorem exists_resolve_of_name {base : Url} (hbase : base.IsHierarchical) {s : String}
    {name tail : List Char} (hname : ∀ c ∈ name, c.isAlpha = true) (hne : name ≠ [])
    (hs : s.toList = name ++ '/' :: tail) : ∃ u, resolve (some base) s = .ok u := by
  obtain ⟨hfile, l, hl⟩ := hbase
  have hfront : ∀ c ∈ name ++ ['/'], 0x20 < c.toNat := by
    intro c hc
    rcases List.mem_append.mp hc with hc | hc
    · exact lt_of_isAlpha (hname c hc)
    · rw [List.mem_singleton.mp hc]
      decide
  rw [List.append_cons] at hs
  obtain ⟨tail', htail⟩ := cleaned_of_front hfront (by simp) hs
  rw [← List.append_cons] at htail
  obtain ⟨c, rest, rfl⟩ := List.exists_cons_of_ne_nil hne
  exact ⟨_, resolve_of_letter hl hfile htail (hname c List.mem_cons_self)
    (scheme?_of_name hname tail')⟩

end WalletApi.Url
