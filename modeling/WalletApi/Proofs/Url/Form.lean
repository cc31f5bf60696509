import WalletApi.Proofs.Url.Percent
import WalletApi.Url.Form
import WalletApi.Url.Reading

/-!
# Forms read back

A reader of forms splits at the ampersands, splits what stands between them at the first equals
sign, takes a plus sign for a blank and decodes the rest. It gives back what was written, whatever
the names and values are (`WalletApi.Form.read?_encode`): the signs that split are never left in a
name or value, and neither is a plus sign or a percent sign that stands for itself.

What is written has only few characters (`WalletApi.Form.IsWritten`). An address encodes its query
once more, but none of these characters is encoded or dropped there, so the query of the address is
the form as it was written (`WalletApi.Form.withQuery_of_isWritten`).
-/

namespace WalletApi.Form

/-! ### The reader -/

/-- A plus sign stands for a blank. -/
def blank (c : Char) : Char := if c = '+' then ' ' else c

/-- The name or value that a text writes. -/
def readText? (cs : List Char) : Option String :=
  (Utf8.decode? (Percent.decode (cs.map blank))).map String.ofList

/-- The pair that a text writes, cut at its first equals sign. -/
def readPair? (cs : List Char) : Option (String × String) :=
  match readText? (cs.takeWhile (· != '=')), readText? ((cs.dropWhile (· != '=')).drop 1) with
  | some name, some value => some (name, value)
  | _, _ => none

/-- **The list of pairs that a text writes**, cut at its ampersands. -/
def read? (cs : List Char) : Option (List (String × String)) :=
  ((cs.splitOn '&').filter (· ≠ [])).mapM readPair?

/-! ### Characters -/

/-- The characters of a written name or value. -/
def IsToken (c : Char) : Prop := isPlain c = true ∨ c = '+' ∨ c = '%'

/-- **The characters of a written form.** -/
def IsWritten (c : Char) : Prop := IsToken c ∨ c = '&' ∨ c = '='

instance : DecidablePred IsToken := fun _ => inferInstanceAs (Decidable (_ ∨ _))

instance : DecidablePred IsWritten := fun _ => inferInstanceAs (Decidable (_ ∨ _))

theorem isPlain_digit : ∀ n : Fin 16, isPlain (Percent.digit n.val) = true := by decide +kernel

theorem isToken_of_mem_encodeText {cs : List Char} {d : Char} (h : d ∈ encodeText cs) :
    IsToken d := by
  obtain ⟨c, -, hd⟩ := List.mem_flatMap.mp h
  rw [encodeChar] at hd
  split at hd
  · exact .inr (.inl (List.mem_singleton.mp hd))
  · have hmem : d ∈ Percent.encode (fun c => !isPlain c) [c] := by
      rwa [Percent.encode, List.flatMap_singleton]
    rcases Percent.mem_encode hmem with ⟨-, -, hplain⟩ | hpercent | ⟨n, rfl⟩
    · exact .inl (by simpa using hplain)
    · exact .inr (.inr hpercent)
    · exact .inl (isPlain_digit n)

theorem ne_of_isToken {c : Char} (h : IsToken c) {sign : Char} (hsign : ¬ IsToken sign) :
    c ≠ sign := fun heq => hsign (heq ▸ h)

theorem mem_encodePair {p : String × String} {c : Char} (h : c ∈ encodePair p) :
    IsToken c ∨ c = '=' := by
  rcases List.mem_append.mp h with h | h
  · exact .inl (isToken_of_mem_encodeText h)
  · rcases List.mem_cons.mp h with h | h
    · exact .inr h
    · exact .inl (isToken_of_mem_encodeText h)

theorem encodePair_ne_nil (p : String × String) : encodePair p ≠ [] :=
  List.append_ne_nil_of_right_ne_nil _ (List.cons_ne_nil _ _)

theorem ampersand_notMem_encodePair (p : String × String) : '&' ∉ encodePair p := by
  intro h
  rcases mem_encodePair h with h | h
  · exact absurd h (by decide)
  · exact absurd h (by decide)

theorem encode_eq_intercalate (ps : List (String × String)) :
    encode ps = ['&'].intercalate (ps.map encodePair) := by
  fun_induction encode ps with
  | case1 => rfl
  | case2 p => exact List.intercalate_singleton.symm
  | case3 p rest hrest ih =>
    cases rest with
    | nil => exact absurd rfl hrest
    | cons q rest =>
      rw [List.map_cons, List.map_cons, List.intercalate_cons_cons, ← List.map_cons, ← ih,
        List.append_assoc, List.singleton_append]

/-- **The characters of a form.** -/
theorem isWritten_of_mem_encode {ps : List (String × String)} {c : Char} (h : c ∈ encode ps) :
    IsWritten c := by
  have hpair : ∀ p : String × String, c ∈ encodePair p → IsWritten c := fun p hp =>
    (mem_encodePair hp).imp id .inr
  fun_induction encode ps with
  | case1 => exact absurd h List.not_mem_nil
  | case2 p => exact hpair p h
  | case3 p rest hrest ih =>
    rcases List.mem_append.mp h with h | h
    · exact hpair p h
    · rcases List.mem_cons.mp h with h | h
      · exact .inr (.inl h)
      · exact ih h

theorem encode_eq_nil_iff {ps : List (String × String)} : encode ps = [] ↔ ps = [] := by
  constructor
  · intro h
    fun_cases encode ps with
    | case1 => rfl
    | case2 p => exact absurd h (encodePair_ne_nil p)
    | case3 p rest hrest =>
      rw [encode.eq_3 p rest hrest, List.append_eq_nil_iff] at h
      exact absurd h.1 (encodePair_ne_nil p)
  · rintro rfl
    rfl

/-! ### Reading what was written -/

theorem map_blank_bytes (bs : Bytes) :
    (bs.flatMap Percent.byte).map blank = bs.flatMap Percent.byte := by
  have hdigit : ∀ n : Fin 16, blank (Percent.digit n.val) = Percent.digit n.val := by
    decide +kernel
  refine (List.map_congr_left fun c hc => ?_).trans (List.map_id _)
  rcases Percent.mem_bytes hc with rfl | ⟨n, rfl⟩
  · rfl
  · exact hdigit n

theorem decode_encodeText (cs : List Char) :
    Percent.decode ((encodeText cs).map blank) = Utf8.encode cs := by
  induction cs with
  | nil => rfl
  | cons c cs ih =>
    rw [encodeText, List.flatMap_cons, List.map_append, ← encodeText, Utf8.encode_cons, ← ih]
    rw [encodeChar]
    split
    · next hblank =>
      rw [hblank]
      exact Percent.decode_cons_of_ne (by decide) _
    · rcases Percent.encodeChar_cases (fun c => !isPlain c) c with ⟨hkept, -, hset⟩ | ⟨hbytes, -⟩
      · have hplain : isPlain c = true := by simpa using hset
        have hplus : c ≠ '+' := by rintro rfl; exact absurd hplain (by decide)
        have hpercent : c ≠ '%' := by rintro rfl; exact absurd hplain (by decide)
        rw [hkept, List.map_cons, blank, if_neg hplus]
        exact Percent.decode_cons_of_ne hpercent _
      · rw [hbytes, map_blank_bytes, Percent.decode_bytes_append]

theorem readText?_encodeText (s : String) : readText? (encodeText s.toList) = some s := by
  rw [readText?, decode_encodeText, Utf8.decode?_encode, Option.map_some, String.ofList_toList]

theorem readPair?_encodePair (p : String × String) : readPair? (encodePair p) = some p := by
  have hname : ∀ c ∈ encodeText p.1.toList, (c != '=') = true := fun c hc =>
    bne_iff_ne.mpr (ne_of_isToken (isToken_of_mem_encodeText hc) (by decide))
  rw [readPair?, encodePair, List.takeWhile_append_of_pos hname, List.dropWhile_append_of_pos hname,
    List.takeWhile_cons_of_neg (by decide), List.dropWhile_cons_of_neg (by decide),
    List.append_nil, List.drop_one, List.tail_cons, readText?_encodeText, readText?_encodeText]

theorem mapM_readPair? (ps : List (String × String)) :
    (ps.map encodePair).mapM readPair? = some ps := by
  induction ps with
  | nil => rfl
  | cons p ps ih =>
    rw [List.map_cons, List.mapM_cons, readPair?_encodePair, ih]
    rfl

/-- **A form is read back as the pairs that it was written from.** -/
theorem read?_encode (ps : List (String × String)) : read? (encode ps) = some ps := by
  cases ps with
  | nil => rfl
  | cons p ps =>
    have hsplit : (encode (p :: ps)).splitOn '&' = (p :: ps).map encodePair := by
      rw [encode_eq_intercalate]
      refine List.splitOn_intercalate '&' (fun l hl => ?_) (List.cons_ne_nil _ _)
      obtain ⟨q, -, rfl⟩ := List.mem_map.mp hl
      exact ampersand_notMem_encodePair q
    have hfilter : ((p :: ps).map encodePair).filter (· ≠ []) = (p :: ps).map encodePair := by
      refine List.filter_eq_self.mpr fun l hl => decide_eq_true ?_
      obtain ⟨q, -, rfl⟩ := List.mem_map.mp hl
      exact encodePair_ne_nil q
    rw [read?, hsplit, hfilter, mapM_readPair?]

/-! ### Forms as queries -/

theorem toNat_lt_of_isPlain {c : Char} (h : isPlain c = true) : c.toNat < 0x80 := by
  simp only [isPlain, Bool.or_eq_true, beq_iff_eq] at h
  rcases h with (((h | rfl) | rfl) | rfl) | rfl
  · exact Percent.toNat_lt_of_isAlphanum h
  all_goals decide

theorem toNat_lt_of_isWritten {c : Char} (h : IsWritten c) : c.toNat < 0x80 := by
  rcases h with (h | rfl | rfl) | rfl | rfl
  · exact toNat_lt_of_isPlain h
  all_goals decide

/-- The characters of a form are kept in the query of an address, and none of them is dropped. -/
theorem kept_of_isWritten {c : Char} (h : IsWritten c) :
    Percent.specialQuerySet c = false ∧ Percent.querySet c = false ∧
      (!(c == '\t' || c == '\n' || c == '\r')) = true :=
  Percent.forall_ascii (P := fun c => IsWritten c → Percent.specialQuerySet c = false ∧
    Percent.querySet c = false ∧ (!(c == '\t' || c == '\n' || c == '\r')) = true)
    (by decide +kernel) (toNat_lt_of_isWritten h) h

/-- **The query of an address is the form as it was written**: encoding it once more changes
nothing. -/
theorem withQuery_of_isWritten (u : Url) {cs : List Char} (h : ∀ c ∈ cs, IsWritten c) :
    u.withQuery cs = { u with query := some cs } := by
  have hkept : cs.filter (fun c => !(c == '\t' || c == '\n' || c == '\r')) = cs :=
    List.filter_eq_self.mpr fun c hc => (kept_of_isWritten (h c hc)).2.2
  have hencode : Percent.encode
      (if Url.isSpecial u.scheme then Percent.specialQuerySet else Percent.querySet) cs = cs := by
    refine Percent.encode_of_kept fun c hc => ⟨toNat_lt_of_isWritten (h c hc), ?_⟩
    split
    · exact (kept_of_isWritten (h c hc)).1
    · exact (kept_of_isWritten (h c hc)).2.1
  rw [Url.withQuery]
  simp only [hkept, hencode]

end WalletApi.Form
