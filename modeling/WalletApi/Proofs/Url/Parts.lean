import WalletApi.Proofs.Lists
import WalletApi.Proofs.Url.Relative

/-!
# The parts of a text that writes an address

A text is read in parts: the scheme, the authority, the path, and the query and the fragment. Each
part ends at signs that begin another one, so reading a part depends on the text up to the next part
and not on what follows:

* the scheme on what stands before its colon (`WalletApi.Url.scheme?_append`);
* the authority of a scheme with servers on what stands before the first slash
  (`WalletApi.Url.withAuthority_of_isSpecial`);
* the query and the fragment on what their signs begin (`WalletApi.Url.queryOf_append`,
  `WalletApi.Url.fragmentOf_append`).
-/

namespace WalletApi.Url

/-! ### Query and fragment -/

/-- The query and the fragment of a text, with the signs that begin them. -/
def tailOf (cs : List Char) : List Char := cs.dropWhile fun c => !beginsTail c

theorem beforeTail_append_tailOf (cs : List Char) : beforeTail cs ++ tailOf cs = cs :=
  List.takeWhile_append_dropWhile

theorem beginsTail_of_mem_beforeTail {cs : List Char} {c : Char} (h : c ∈ beforeTail cs) :
    beginsTail c = false := by
  simpa using List.mem_takeWhile_imp h

theorem beginsTail_of_head?_tailOf {cs : List Char} {c : Char} (h : c ∈ (tailOf cs).head?) :
    beginsTail c = true := by
  have hnot := List.head?_dropWhile_not (fun c => !beginsTail c) cs
  rw [tailOf] at h
  rw [Option.mem_def.mp h] at hnot
  simpa using hnot

section Tail

variable {front tail : List Char} (hfront : ∀ c ∈ front, beginsTail c = false)

include hfront

theorem dropWhile_append_tail :
    (front ++ tail).dropWhile (fun c => !beginsTail c) = tail.dropWhile fun c => !beginsTail c :=
  List.dropWhile_append_of_pos fun c hc => by rw [hfront c hc]; rfl

theorem queryOf_append (special : Bool) :
    queryOf special (front ++ tail) = queryOf special tail := by
  rw [queryOf, queryOf, dropWhile_append_tail hfront]

theorem fragmentOf_append : fragmentOf (front ++ tail) = fragmentOf tail := by
  have hne : ∀ c ∈ front, (c != '#') = true := by
    refine fun c hc => bne_iff_ne.mpr fun heq => ?_
    have hno := hfront c hc
    rw [heq] at hno
    exact nomatch hno
  rw [fragmentOf, fragmentOf, List.dropWhile_append_of_pos hne]

theorem beforeTail_append (htail : ∀ c ∈ tail.head?, beginsTail c = true) :
    beforeTail (front ++ tail) = front := by
  rw [beforeTail, takeWhile_append_of_head? fun c hc => by rw [htail c hc]; rfl]
  exact List.takeWhile_eq_self_iff.mpr fun c hc => by rw [hfront c hc]; rfl

end Tail

/-! ### Schemes -/

/-- The character ends what may be a scheme, and is no colon. -/
def endsScheme (c : Char) : Bool :=
  !(c.isAlphanum || c == '+' || c == '-' || c == '.' || c == ':')

theorem endsScheme_of_beginsTail {c : Char} (h : beginsTail c = true) : endsScheme c = true := by
  have hsign : c = '?' ∨ c = '#' := by simpa [beginsTail] using h
  rcases hsign with rfl | rfl <;> rfl

/-- **The scheme of a text is that of its front**, if what follows cannot go on with it. -/
theorem scheme?_append (front : List Char) {tail : List Char}
    (htail : ∀ c ∈ tail.head?, endsScheme c = true) :
    scheme? (front ++ tail) = (scheme? front).map fun p => (p.1, p.2 ++ tail) := by
  have hends : ∀ c ∈ tail.head?, (c.isAlphanum || c == '+' || c == '-' || c == '.') = false ∧
      c ≠ ':' := by
    intro c hc
    simpa [endsScheme, and_assoc] using htail c hc
  cases front with
  | nil =>
    cases tail with
    | nil => rfl
    | cons c rest =>
      have halpha : c.isAlpha = false := by
        have hsign := (hends c rfl).1
        simp only [Char.isAlphanum, Bool.or_eq_false_iff] at hsign
        exact hsign.1.1.1.1
      have hnone : scheme? (c :: rest) = none := by
        simp only [scheme?, halpha, Bool.false_eq_true, if_false]
      rw [List.nil_append, hnone]
      rfl
  | cons first rest =>
    -- The tail is neither part of the scheme nor the colon behind it.
    have hdrop := dropWhile_append_of_head? (fun c hc => (hends c hc).1) (first :: rest)
    have htake := takeWhile_append_of_head? (fun c hc => (hends c hc).1) (first :: rest)
    rw [List.cons_append] at hdrop htake ⊢
    simp only [scheme?, hdrop, htake]
    split
    · generalize (first :: rest).dropWhile _ = found
      cases found with
      | nil =>
        split
        · next heq =>
          rw [List.nil_append] at heq
          exact absurd rfl (hends ':' (by rw [heq]; rfl)).2
        · rfl
      | cons d more =>
        by_cases hd : d = ':'
        · rw [hd]
          rfl
        · split
          · next heq => exact absurd (List.cons.inj heq).1 hd
          · split
            · next heq => exact absurd (List.cons.inj heq).1 hd
            · rfl
    · rfl

theorem exists_scheme?_of_append {front tail scheme rest : List Char}
    (htail : ∀ c ∈ tail.head?, endsScheme c = true)
    (h : scheme? (front ++ tail) = some (scheme, rest)) :
    ∃ rest, scheme? front = some (scheme, rest) := by
  rw [scheme?_append front htail] at h
  obtain ⟨⟨_, rest'⟩, hfront, heq⟩ := Option.map_eq_some_iff.mp h
  obtain ⟨rfl, -⟩ := Prod.ext_iff.mp heq
  exact ⟨rest', hfront⟩

/-- Where there are servers, slashes behind the scheme do not count. -/
theorem absolute_of_isSpecial {scheme : List Char} (hspecial : isSpecial scheme = true)
    (hfile : scheme ≠ fileScheme) (cs : List Char) :
    absolute none scheme cs = withAuthority scheme (cs.dropWhile (isSlash true)) := by
  have hdrop : cs.drop (cs.takeWhile (isSlash true)).length = cs.dropWhile (isSlash true) :=
    calc cs.drop (cs.takeWhile (isSlash true)).length
      _ = (cs.takeWhile (isSlash true) ++ cs.dropWhile (isSlash true)).drop
          (cs.takeWhile (isSlash true)).length := by rw [List.takeWhile_append_dropWhile]
      _ = cs.dropWhile (isSlash true) := List.drop_left
  rw [absolute.eq_def, if_neg hfile, if_pos hspecial]
  exact congrArg (withAuthority scheme) hdrop

theorem scheme_of_absolute {scheme cs : List Char} {u : Url} (h : absolute none scheme cs = .ok u) :
    u.scheme = scheme := by
  rw [absolute.eq_def] at h
  split at h
  · next hfile => exact (file_eq_ok h).trans hfile.symm
  · split at h
    · exact (withAuthority_eq_ok h).1
    · split at h
      · exact (withAuthority_eq_ok h).1
      · obtain rfl := Except.ok.inj h
        rfl

/-- An address that is read has the scheme that its text begins with. -/
theorem exists_scheme?_of_ofText {s : String} {u : Url} (h : ofText s = .ok u) :
    ∃ rest, scheme? (cleaned s) = some (u.scheme, rest) := by
  simp only [ofText, resolve] at h
  split at h
  · next scheme rest hs =>
    obtain rfl := scheme_of_absolute h
    exact ⟨rest, hs⟩
  · cases h

theorem suffix_of_scheme? {cs scheme rest : List Char} (h : scheme? cs = some (scheme, rest)) :
    rest <:+ cs := by
  cases cs with
  | nil => cases h
  | cons first more =>
    simp only [scheme?] at h
    split at h
    · split at h
      · next rest' hdrop =>
        obtain ⟨-, rfl⟩ := Prod.ext_iff.mp (Option.some.inj h)
        have hsuffix := List.dropWhile_suffix (l := first :: more)
          fun c : Char => c.isAlphanum || c == '+' || c == '-' || c == '.'
        rw [hdrop] at hsuffix
        exact (List.suffix_cons ':' _).trans hsuffix
      · cases h
    · cases h

/-! ### The authority -/

/-- The text up to its first slash. -/
def beforeSlash (special : Bool) (cs : List Char) : List Char :=
  cs.takeWhile fun c => !isSlash special c

/-- The text from its first slash on. -/
def fromSlash (special : Bool) (cs : List Char) : List Char :=
  cs.dropWhile fun c => !isSlash special c

/-- The authority that the texts of a user, if there is one, and of a server write, and what is left
of the server's text. -/
def authorityOf (scheme : List Char) (parts : Option (List Char) × List Char) :
    Except ReadFault (Authority × List Char) := do
  let userText := parts.1.getD []
  let user := Percent.encode Percent.userSet (userText.takeWhile (· != ':'))
  let password := Percent.encode Percent.userSet ((userText.dropWhile (· != ':')).drop 1)
  let name := hostText false parts.2
  let host ← hostOf scheme name
  let afterHost := parts.2.drop name.length
  if host = .none ∧ (afterHost ≠ [] ∨ user ≠ [] ∨ password ≠ []) then .error (.host .empty)
  else
    let (port, afterPort) ←
      match afterHost with
      | [] => .ok (none, [])
      | _ :: digits => portFrom scheme digits
    pure (⟨user, password, host, port⟩, afterPort)

/-- **Where there are servers, the authority is read of the text up to the first slash** and of
nothing else. -/
theorem withAuthority_of_isSpecial {scheme : List Char} (hspecial : isSpecial scheme = true)
    (cs : List Char) :
    withAuthority scheme cs =
      (authorityOf scheme
        (splitAtLast '@' (beforeSlash (isSpecial scheme) (beforeTail cs)))).map fun p =>
      { scheme := scheme
        authority := some p.1
        path := pathAfterAuthority scheme (p.2 ++ fromSlash (isSpecial scheme) (beforeTail cs))
        query := queryOf (isSpecial scheme) cs
        fragment := fragmentOf cs } := by
  obtain ⟨⟨user?, server⟩, hsplit⟩ : ∃ parts,
    splitAtLast '@' (beforeSlash (isSpecial scheme) (beforeTail cs)) = parts := ⟨_, rfl⟩
  rw [hsplit]
  rw [beforeSlash] at hsplit
  simp only [withAuthority, hsplit]
  split
  · next hempty =>
    -- Without a server there is no host, whatever stands behind it.
    obtain ⟨-, rfl, -⟩ := hempty
    have hhost : hostOf scheme (hostText false []) = .error (.host .empty) := by
      rw [hostOf, if_pos hspecial]
      rfl
    rw [authorityOf, hhost]
    rfl
  · rw [authorityOf]
    cases hostOf scheme (hostText false server) with
    | error e => rfl
    | ok host =>
      simp only [ok_bind]
      split
      · rfl
      · cases server.drop (hostText false server).length with
        | nil => rfl
        | cons d digits =>
          simp only
          cases portFrom scheme digits with
          | error e => rfl
          | ok p => rfl

theorem splitAtLast_sublist (sign : Char) (cs : List Char) :
    (splitAtLast sign cs).2.Sublist cs := by
  have hafter : (cs.reverse.takeWhile (· != sign)).reverse.Sublist cs := by
    rw [← List.reverse_sublist, List.reverse_reverse]
    exact List.takeWhile_sublist _
  rw [splitAtLast]
  split
  · exact hafter
  · exact List.Sublist.refl cs

theorem portFrom_sublist {scheme cs : List Char} {p : Option ℕ × List Char}
    (h : portFrom scheme cs = .ok p) : p.2.Sublist cs := by
  simp only [portFrom] at h
  split at h
  · exact nomatch h
  · split at h
    · exact nomatch h
    · obtain rfl := Except.ok.inj h
      exact List.dropWhile_sublist _

/-- What is left of the server's text is a part of it. -/
theorem authorityOf_sublist {scheme : List Char} {parts : Option (List Char) × List Char}
    {p : Authority × List Char} (h : authorityOf scheme parts = .ok p) : p.2.Sublist parts.2 := by
  obtain ⟨host, -, h⟩ := bind_eq_ok.mp h
  simp only at h
  split at h
  · exact nomatch h
  · split at h
    · obtain rfl := Except.ok.inj h
      exact List.nil_sublist parts.2
    · next d digits hdrop =>
      obtain ⟨q, hport, h⟩ := bind_eq_ok.mp h
      obtain rfl := Except.ok.inj h
      have hdigits : digits.Sublist parts.2 := by
        have hsub := List.drop_sublist (hostText false parts.2).length parts.2
        rw [hdrop] at hsub
        exact (List.sublist_cons_self d digits).trans hsub
      exact (portFrom_sublist hport).trans hdigits

end WalletApi.Url
