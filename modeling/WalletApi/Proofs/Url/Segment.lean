import Mathlib.Data.List.Flatten
import WalletApi.Proofs.Url.Paths

/-!
# Texts put behind a name

A text that is put behind a name and a slash and resolved below a base is read as the rest of an
address. It may have a query or a fragment, consist of several segments, step back over the name, or
lose tabs, line ends and the blanks at its end; and since percent signs are kept, whoever reads the
path decodes what looks encoded in it.

`WalletApi.Url.IsSegment` says that none of this happens, and this is exactly when the text is the
one segment below the name, to whoever decodes it:

* `WalletApi.Url.IsBase.resolve_of_isSegment` – a text that is a segment is found below the name;
* `WalletApi.Url.IsBase.isSegment_of_isEntry` – a text that is found there is a segment.

For the second one, decoding is counted. What is decoded is the last piece of what is left of the
text, and decoding makes nothing longer, so to give the whole text that piece must be all of it.
-/

namespace WalletApi

/-! ### Bytes of parts of a text -/

theorem Utf8.encode_inj {cs ds : List Char} (h : encode cs = encode ds) : cs = ds := by
  have hread := decode?_encode cs
  rw [h, decode?_encode] at hread
  exact (Option.some.inj hread).symm

/-- A part of a text that has as many bytes is all of it. -/
theorem Utf8.eq_of_sublist {cs ds : List Char} (hsub : cs.Sublist ds)
    (hlen : (encode ds).length ≤ (encode cs).length) : cs = ds :=
  encode_inj ((hsub.flatMap String.utf8EncodeChar).eq_of_length_le hlen)

namespace Url

/-! ### Segments and entries -/

/-- **A text that is a segment of a path as it stands**: it has no signs that end a segment or the
path, nothing in it is dropped, it is no step within the path, and none of it is decoded. -/
structure IsSegment (cs : List Char) : Prop where
  slash : ∀ c ∈ cs, isSlash true c = false
  tail : ∀ c ∈ cs, beginsTail c = false
  kept : ∀ c ∈ cs, c ∉ dropped
  last : ∀ c ∈ cs.getLast?, 0x20 < c.toNat
  points : points? cs = none
  decode : Percent.decode cs = Utf8.encode cs

theorem isSegment_nil : IsSegment [] where
  slash _ hc := absurd hc List.not_mem_nil
  tail _ hc := absurd hc List.not_mem_nil
  kept _ hc := absurd hc List.not_mem_nil
  last _ hc := nomatch hc
  points := rfl
  decode := rfl

/-- **The address of an entry of a collection**: it has no query, and its path is that of the base,
the name of the collection, and one more segment, which decodes to the text of the entry. -/
structure IsEntry (u base : Url) (name cs : List Char) : Prop where
  query : u.query = none
  path : ∃ segment, '/' ∉ segment ∧ Percent.decode segment = Utf8.encode cs ∧
    pathText u.path = pathText base.path ++ name ++ '/' :: segment

theorem eq_of_append_slash {front front' last last' : List Char}
    (h : front ++ '/' :: last = front' ++ '/' :: last') (hlast : '/' ∉ last)
    (hlast' : '/' ∉ last') : front = front' ∧ last = last' := by
  have hempty : ∀ {mid l l' : List Char}, '/' :: l = mid ++ '/' :: l' → '/' ∉ l →
      mid = [] ∧ l = l' := by
    intro mid l l' heq hl
    cases mid with
    | nil => exact ⟨rfl, (List.cons.inj heq).2⟩
    | cons c mid =>
      rw [(List.cons.inj heq).2] at hl
      exact absurd (List.mem_append_right mid List.mem_cons_self) hl
  rcases List.append_eq_append_iff.mp h with ⟨mid, rfl, hmid⟩ | ⟨mid, rfl, hmid⟩
  · obtain ⟨rfl, rfl⟩ := hempty hmid hlast
    exact ⟨(List.append_nil front).symm, rfl⟩
  · obtain ⟨rfl, rfl⟩ := hempty hmid hlast'
    exact ⟨List.append_nil front', rfl⟩

/-- Entries of a collection with different texts have different paths. -/
theorem IsEntry.inj {u u' base : Url} {name cs cs' : List Char} (h : u.IsEntry base name cs)
    (h' : u'.IsEntry base name cs') (hpath : pathText u.path = pathText u'.path) : cs = cs' := by
  obtain ⟨segment, hslash, hdecode, hu⟩ := h.path
  obtain ⟨segment', hslash', hdecode', hu'⟩ := h'.path
  rw [hu, hu'] at hpath
  obtain ⟨-, rfl⟩ := eq_of_append_slash hpath hslash hslash'
  exact Utf8.encode_inj (hdecode.symm.trans hdecode')

/-! ### Letters and digits -/

theorem pathSet_of_value? {c : Char} {n : ℕ} (h : Percent.value? c = some n) :
    Percent.pathSet c = false := by
  have hascii : (Percent.value? c).isSome → Percent.pathSet c = false := by
    refine Percent.forall_ascii
      (P := fun c => (Percent.value? c).isSome → Percent.pathSet c = false)
      (by decide +kernel) (Percent.lt_of_value? h)
  exact hascii (Option.isSome_of_eq_some h)

/-- A path keeps its percent signs, so the encoding of a segment changes nothing for who decodes it.
-/
theorem decode_encode_pathSet (cs : List Char) :
    Percent.decode (Percent.encode Percent.pathSet cs) = Percent.decode cs :=
  Percent.decode_encode_of_kept (fun _ _ => pathSet_of_value?) (by decide) cs

/-- What holds of the letters, one by one, holds of every one. -/
theorem of_isAlpha {P : Char → Prop}
    (h : ∀ n : Fin 0x80, (Char.ofNat n.val).isAlpha = true → P (Char.ofNat n.val)) {c : Char}
    (hc : c.isAlpha = true) : P c :=
  Percent.forall_ascii (P := fun c => c.isAlpha = true → P c) h (Percent.toNat_lt_of_isAlpha hc) hc

theorem pathSet_of_isAlpha {c : Char} (h : c.isAlpha = true) : Percent.pathSet c = false :=
  of_isAlpha (P := fun c => Percent.pathSet c = false) (by decide +kernel) h

theorem isAlpha_toLower {c : Char} (h : c.isAlpha = true) : c.toLower.isAlpha = true :=
  of_isAlpha (P := fun c => c.toLower.isAlpha = true) (by decide +kernel) h

theorem isSlash_of_isAlpha {c : Char} (h : c.isAlpha = true) : isSlash true c = false :=
  of_isAlpha (P := fun c => isSlash true c = false) (by decide +kernel) h

theorem beginsTail_of_isAlpha {c : Char} (h : c.isAlpha = true) : beginsTail c = false :=
  of_isAlpha (P := fun c => beginsTail c = false) (by decide +kernel) h

theorem notMem_dropped_of_isAlpha {c : Char} (h : c.isAlpha = true) : c ∉ dropped :=
  of_isAlpha (P := fun c => c ∉ dropped) (by decide +kernel) h

section Name

variable {name : List Char} (hname : ∀ c ∈ name, c.isAlpha = true)

include hname

theorem points?_of_letters : points? name = none := by
  have hlowered : ∀ c ∈ name.map Char.toLower, c.isAlpha = true := by
    intro c hc
    obtain ⟨d, hd, rfl⟩ := List.mem_map.mp hc
    exact isAlpha_toLower (hname d hd)
  -- Each of the steps has a sign that is no letter.
  have hsign : ∀ step ∈ ['.'] :: "%2e".toList ::
      ["..".toList, "%2e.".toList, ".%2e".toList, "%2e%2e".toList],
      ∃ c ∈ step, c.isAlpha = false := by simp
  have hstep : ∀ step ∈ ['.'] :: "%2e".toList ::
      ["..".toList, "%2e.".toList, ".%2e".toList, "%2e%2e".toList],
      name.map Char.toLower ≠ step := by
    rintro step hmem rfl
    obtain ⟨c, hc, hno⟩ := hsign _ hmem
    exact nomatch hno.symm.trans (hlowered c hc)
  have hone : ¬(name.map Char.toLower = ['.'] ∨ name.map Char.toLower = "%2e".toList) := by
    rintro (h | h)
    · exact hstep _ List.mem_cons_self h
    · exact hstep _ (List.mem_cons_of_mem _ List.mem_cons_self) h
  rw [points?, if_neg hone, if_neg]
  exact fun h => hstep _ (List.mem_cons_of_mem _ (List.mem_cons_of_mem _ h)) rfl

theorem encode_letters : Percent.encode Percent.pathSet name = name :=
  Percent.encode_of_kept fun c hc =>
    ⟨Percent.toNat_lt_of_isAlpha (hname c hc), pathSet_of_isAlpha (hname c hc)⟩

/-- **A text of letters is a segment.** -/
theorem isSegment_of_letters : IsSegment name where
  slash c hc := isSlash_of_isAlpha (hname c hc)
  tail c hc := beginsTail_of_isAlpha (hname c hc)
  kept c hc := notMem_dropped_of_isAlpha (hname c hc)
  last c hc := lt_of_isAlpha (hname c (List.mem_of_getLast? hc))
  points := points?_of_letters hname
  decode := by
    -- There are no percent signs, so encoding them changes nothing and decoding gives it back.
    have hencode : Percent.encode (· == '%') name = name :=
      Percent.encode_of_kept fun c hc => by
        refine ⟨Percent.toNat_lt_of_isAlpha (hname c hc), beq_eq_false_iff_ne.mpr ?_⟩
        rintro rfl
        exact nomatch hname _ hc
    have hdecode := @Percent.decode_encode (· == '%') rfl name
    rwa [hencode] at hdecode

end Name

/-! ### Below a base and a name -/

section Below

variable {base : Url} {l : List (List Char)} (hbase : base.IsBase l)
  (hspecial : isSpecial base.scheme = true) {first : Char} {name cs : List Char}
  (hname : ∀ c ∈ first :: name, c.isAlpha = true) {s : String}
  (hs : s.toList = first :: name ++ '/' :: cs)

include hname in
theorem forall_name_append {P : Char → Prop} (halpha : ∀ c, c.isAlpha = true → P c)
    (hslash : P '/') (hcs : ∀ c ∈ cs, P c) : ∀ c ∈ first :: name ++ '/' :: cs, P c := by
  intro c hc
  rcases List.mem_append.mp hc with hc | hc
  · exact halpha c (hname c hc)
  · rcases List.mem_cons.mp hc with rfl | hc
    · exact hslash
    · exact hcs c hc

include hname hs in
theorem cleaned_of_isSegment (h : IsSegment cs) : cleaned s = first :: name ++ '/' :: cs := by
  rw [← hs]
  refine cleaned_eq_self ?_ ?_ ?_
  · rw [hs]
    rintro c ⟨rfl⟩
    exact lt_of_isAlpha (hname first List.mem_cons_self)
  · rw [hs, List.getLast?_append, List.getLast?_cons]
    rintro c ⟨rfl⟩
    cases hlast : cs.getLast? with
    | none => decide
    | some c => exact h.last c hlast
  · rw [hs]
    exact forall_name_append hname (fun c hc => notMem_dropped_of_isAlpha hc) (by decide) h.kept

include hbase hspecial hname hs

/-- **A text that is a segment is found below the name, as it is.** -/
theorem IsBase.resolve_of_isSegment (h : IsSegment cs) :
    resolve (some base) s = .ok { base with
      path := .segments (l ++ [first :: name, Percent.encode Percent.pathSet cs])
      query := none
      fragment := none } := by
  have hsplit : splitAtSlashes (isSpecial base.scheme) (first :: name ++ '/' :: cs) =
      [first :: name, cs] := by
    rw [hspecial, splitAtSlashes_append fun c hc => isSlash_of_isAlpha (hname c hc),
      splitAtSlashes_of_forall h.slash]
  have hpieces : ∀ piece ∈ splitAtSlashes (isSpecial base.scheme) (first :: name ++ '/' :: cs),
      points? piece = none := by
    rw [hsplit]
    intro piece hpiece
    rcases List.mem_pair.mp hpiece with rfl | rfl
    · exact points?_of_letters hname
    · exact h.points
  have htail := forall_name_append hname (fun c hc => beginsTail_of_isAlpha hc) rfl h.tail
  have hcleaned : cleaned s = first :: (name ++ '/' :: cs) := cleaned_of_isSegment hname hs h
  rw [hbase.resolve_of_pieces hcleaned (hname first List.mem_cons_self)
    (scheme?_of_name hname cs) htail hpieces, ← List.cons_append, hsplit, List.map_cons,
    encode_letters hname]
  rfl

/-- Of any other text, the last segment of the path is empty or made of a piece of the text. -/
theorem IsBase.exists_resolve_below : ∃ tail path last query fragment,
    resolve (some base) s = .ok { base with
      path := .segments (path ++ [last])
      query := query
      fragment := fragment } ∧
    cleaned s = first :: name ++ '/' :: tail ∧ tail.Sublist cs ∧
    (last = [] ∨ ∃ piece, piece <:+ beforeTail tail ∧ (∀ c ∈ piece, isSlash true c = false) ∧
      points? piece = none ∧ last = Percent.encode Percent.pathSet piece) := by
  -- Cleaning takes nothing from the name and its slash, only from what follows them.
  have hfront : ∀ c ∈ first :: name ++ ['/'], 0x20 < c.toNat :=
    forall_name_append hname (fun c hc => lt_of_isAlpha hc) (by decide) fun c hc =>
      absurd hc List.not_mem_nil
  obtain ⟨tail, htail⟩ : ∃ tail, cleaned s = first :: (name ++ '/' :: tail) := by
    obtain ⟨tail, htail⟩ := cleaned_of_front hfront (List.cons_ne_nil _ _)
      (hs.trans (List.append_cons _ _ _))
    exact ⟨tail, htail.trans (List.append_cons _ _ _).symm⟩
  have hsub : tail.Sublist cs := by
    have hcleaned := cleaned_sublist s
    rw [htail, hs, ← List.cons_append] at hcleaned
    exact List.cons_sublist_cons.mp ((List.append_sublist_append_left _).mp hcleaned)
  have hbefore : beforeTail (first :: (name ++ '/' :: tail)) =
      first :: name ++ '/' :: beforeTail tail := by
    rw [beforeTail, ← List.cons_append, List.takeWhile_append_of_pos fun c hc => by
      rw [beginsTail_of_isAlpha (hname c hc)]; rfl]
    rfl
  obtain ⟨pieces, piece, hsplit, hsuffix, -⟩ := exists_last_splitAtSlashes true (beforeTail tail)
  have hmem : piece ∈ splitAtSlashes true (beforeTail tail) := by
    rw [hsplit]
    exact List.mem_append_right _ List.mem_cons_self
  obtain ⟨path, last, hwalk, hlast⟩ := exists_last_walk ((first :: name) :: pieces) piece l
  refine ⟨tail, path, last, queryOf true (first :: (name ++ '/' :: tail)),
    fragmentOf (first :: (name ++ '/' :: tail)), ?_, htail, hsub, ?_⟩
  · rw [hbase.resolve_of_letter htail (hname first List.mem_cons_self)
      (scheme?_of_name hname tail), hbefore, hspecial,
      splitAtSlashes_append fun c hc => isSlash_of_isAlpha (hname c hc), hsplit, ← List.cons_append,
      hwalk]
  · rcases hlast with rfl | ⟨hpoints, rfl⟩
    · exact .inl rfl
    · exact .inr ⟨piece, hsuffix, isSlash_of_mem_splitAtSlashes hmem, hpoints, rfl⟩

/-- The entry that a segment names. -/
theorem IsBase.isEntry_of_isSegment (h : IsSegment cs) {u : Url}
    (hu : resolve (some base) s = .ok u) : u.IsEntry base (first :: name) cs := by
  rw [hbase.resolve_of_isSegment hspecial hname hs h] at hu
  obtain rfl := Except.ok.inj hu
  refine ⟨rfl, Percent.encode Percent.pathSet cs, ?_, ?_, ?_⟩
  · exact Percent.slash_notMem_encode fun hmem => nomatch h.slash '/' hmem
  · exact (decode_encode_pathSet cs).trans h.decode
  · rw [hbase.2, pathText_concat, List.append_cons l, pathText_concat, pathText_concat]
    simp only [List.append_assoc, List.cons_append, List.nil_append]

/-- **What is found below the name as it stands is a segment.** -/
theorem IsBase.isSegment_of_isEntry {u : Url} (hu : resolve (some base) s = .ok u)
    (h : u.IsEntry base (first :: name) cs) : IsSegment cs := by
  obtain ⟨tail, path, last, query, fragment, hresolve, hcleaned, hsub, hlast⟩ :=
    hbase.exists_resolve_below hspecial hname hs
  rw [hresolve] at hu
  obtain rfl := Except.ok.inj hu
  obtain ⟨segment, hslash, hdecode, hpath⟩ := h.path
  rw [pathText_concat] at hpath
  -- The segment is the last one, and so is empty or made of a piece of the text.
  rcases hlast with rfl | ⟨piece, hsuffix, hpiece, hpoints, rfl⟩
  · obtain ⟨-, rfl⟩ := eq_of_append_slash hpath List.not_mem_nil hslash
    obtain rfl : cs = [] := Utf8.encode_inj hdecode.symm
    exact isSegment_nil
  · have hpath := (eq_of_append_slash hpath (Percent.slash_notMem_encode fun hmem =>
      nomatch hpiece '/' hmem) hslash).2
    rw [← hpath, decode_encode_pathSet] at hdecode
    have hbefore : (beforeTail tail).Sublist tail := List.takeWhile_sublist _
    obtain rfl : piece = cs := Utf8.eq_of_sublist ((hsuffix.sublist.trans hbefore).trans hsub)
      (hdecode ▸ Percent.length_decode_le piece)
    -- Nothing was taken from the text on the way to the piece.
    obtain rfl : tail = piece := hsub.antisymm (hsuffix.sublist.trans hbefore)
    have hall : beforeTail tail = tail := hbefore.antisymm hsuffix.sublist
    exact
      { slash := hpiece
        tail := fun c hc => by
          simpa using List.takeWhile_eq_self_iff.mp hall c hc
        kept := fun c hc => by
          refine notMem_dropped_of_mem_cleaned (s := s) ?_
          rw [hcleaned]
          exact List.mem_append_right _ (List.mem_cons_of_mem _ hc)
        last := fun c hc => by
          refine lt_of_getLast?_cleaned (s := s) ?_
          rw [hcleaned, List.getLast?_append, List.getLast?_cons, hc]
          rfl
        points := hpoints
        decode := hdecode }

end Below

end Url

end WalletApi
