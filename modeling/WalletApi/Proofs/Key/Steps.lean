import Mathlib.Data.Nat.Digits.Lemmas
import WalletApi.Auth.Error
import WalletApi.Proofs.Key.Derivation
import WalletApi.Proofs.Text.Hex

/-!
# Which steps a nonce makes

A nonce makes a path exactly if it is a text of hexadecimal digits and not empty; otherwise the
first character that is no digit is told. Its digits are taken eight at a time, and what the groups
are is told by their places: the group at place `i` holds the digits from `8 * i` on
(`WalletApi.ChildNumber.getElem_groups`), so that only the last one can be shorter
(`WalletApi.ChildNumber.length_groups`).

A group is made by cutting characters here. Whoever cuts the bytes of the nonce instead has to read
each piece as text, then as a word of thirty-two bits, and to subtract within that word
(`WalletApi.ChildNumber.ofNonceBytes`). None of the three can go wrong: digits are one byte each,
eight of them fit the word (`WalletApi.Hex.word?_of_digits`), and what is subtracted never exceeds
what it is subtracted from. Both ways come to one path therefore, and
`WalletApi.ChildNumber.ofNonce_steps` says so, together with the step of every group and when this
step is hardened.
-/

namespace WalletApi

/-- The value of a group is bounded by how many digits it has at most. -/
theorem ChildNumber.groupValue_lt {digits : List Char} {n : ℕ} (hlen : digits.length ≤ n) :
    groupValue digits < 16 ^ n := by
  calc groupValue digits
      < (0 + 1) * 16 ^ digits.length := valueFrom_lt 0 digits
    _ = 16 ^ digits.length := by rw [Nat.zero_add, Nat.one_mul]
    _ ≤ 16 ^ n := Nat.pow_le_pow_right (by decide) hlen

namespace Hex

/-! ### Digits -/

/-- **The hexadecimal digits**, in either case. -/
def IsDigit (c : Char) : Prop :=
  ('0' ≤ c ∧ c ≤ '9') ∨ ('a' ≤ c ∧ c ≤ 'f') ∨ ('A' ≤ c ∧ c ≤ 'F')

theorem isSome_value?_iff {c : Char} : (value? c).isSome = true ↔ IsDigit c := by
  rw [value?, IsDigit]
  split
  · next h => exact iff_of_true rfl (.inl h)
  · next h =>
    split
    · next h' => exact iff_of_true rfl (.inr (.inl h'))
    · next h' =>
      split
      · next h'' => exact iff_of_true rfl (.inr (.inr h''))
      · next h'' =>
        refine iff_of_false (by simp) ?_
        rintro (hc | hc | hc)
        · exact h hc
        · exact h' hc
        · exact h'' hc

theorem value?_of_isDigit {c : Char} (h : IsDigit c) : value? c = some (number c) := by
  obtain ⟨n, hn⟩ := Option.isSome_iff_exists.mp (isSome_value?_iff.mpr h)
  rw [number, hn, Option.getD_some]

/-- The number of a digit, range by range. -/
theorem number_cases {c : Char} (h : IsDigit c) :
    (48 ≤ c.toNat ∧ c.toNat ≤ 57 ∧ number c = c.toNat - 48) ∨
      (97 ≤ c.toNat ∧ c.toNat ≤ 102 ∧ number c = c.toNat - 87) ∨
      (65 ≤ c.toNat ∧ c.toNat ≤ 70 ∧ number c = c.toNat - 55) := by
  have hle : ∀ {d e : Char}, d ≤ e ↔ d.toNat ≤ e.toNat := Iff.rfl
  have hcases := h
  rw [IsDigit, hle, hle, hle, hle, hle, hle] at hcases
  have hvalues : '0'.toNat = 48 ∧ '9'.toNat = 57 ∧ 'a'.toNat = 97 ∧ 'f'.toNat = 102 ∧
      'A'.toNat = 65 ∧ 'F'.toNat = 70 := ⟨rfl, rfl, rfl, rfl, rfl, rfl⟩
  rw [number, value?]
  simp only [hle, hvalues] at hcases ⊢
  rcases hcases with hc | hc | hc
  · rw [if_pos hc]
    exact .inl ⟨hc.1, hc.2, rfl⟩
  · rw [if_neg (by omega), if_pos hc]
    exact .inr (.inl ⟨hc.1, hc.2, rfl⟩)
  · rw [if_neg (by omega), if_neg (by omega), if_pos hc]
    exact .inr (.inr ⟨hc.1, hc.2, rfl⟩)

/-- The letters f are the digits fifteen. -/
theorem number_eq_fifteen_iff {c : Char} (h : IsDigit c) : number c = 15 ↔ c = 'f' ∨ c = 'F' := by
  have hsmall : c = 'f' ↔ c.toNat = 102 := ⟨fun hc => hc ▸ rfl, fun hc => Char.toNat_inj.mp hc⟩
  have hlarge : c = 'F' ↔ c.toNat = 70 := ⟨fun hc => hc ▸ rfl, fun hc => Char.toNat_inj.mp hc⟩
  rw [hsmall, hlarge]
  rcases number_cases h with ⟨hlow, hhigh, hc⟩ | ⟨hlow, hhigh, hc⟩ | ⟨hlow, hhigh, hc⟩ <;> omega

/-! ### Words -/

/-- A digit after a number of thirty-two bits, if the result still is one. -/
def addDigit? (n : ℕ) (c : Char) : Option ℕ := do
  let d ← value? c
  if n * 16 + d < 2 ^ 32 then some (n * 16 + d) else none

/-- **The word that a text writes in base sixteen**: one plus sign may stand in front, at least one
digit has to follow, and the number has to fit thirty-two bits. -/
def word? (cs : List Char) : Option UInt32 :=
  let digits := if cs.head? = some '+' then cs.tail else cs
  if digits = [] then none else (digits.foldlM addDigit? 0).map UInt32.ofNat

theorem le_valueFrom (n : ℕ) (cs : List Char) : n ≤ ChildNumber.valueFrom n cs := by
  induction cs generalizing n with
  | nil => exact Nat.le_refl n
  | cons c cs ih =>
    rw [ChildNumber.valueFrom_cons]
    exact Nat.le_trans (by omega) (ih _)

theorem foldlM_addDigit? {cs : List Char} (h : ∀ c ∈ cs, IsDigit c) {n : ℕ}
    (hn : ChildNumber.valueFrom n cs < 2 ^ 32) :
    cs.foldlM addDigit? n = some (ChildNumber.valueFrom n cs) := by
  induction cs generalizing n with
  | nil => rfl
  | cons c cs ih =>
    rw [ChildNumber.valueFrom_cons] at hn
    -- What has been read so far is at most what there is in the end.
    have hfits : n * 16 + number c < 2 ^ 32 := Nat.lt_of_le_of_lt (le_valueFrom _ cs) hn
    have hstep : addDigit? n c = some (n * 16 + number c) := by
      rw [addDigit?, value?_of_isDigit (h c List.mem_cons_self)]
      exact if_pos hfits
    rw [List.foldlM_cons, hstep]
    exact ih (fun d hd => h d (List.mem_cons_of_mem c hd)) hn

/-- **At most eight digits write a word**, whose number is the value of the group. -/
theorem word?_of_digits {cs : List Char} (h : ∀ c ∈ cs, IsDigit c) (hne : cs ≠ [])
    (hlen : cs.length ≤ 8) :
    ∃ w, word? cs = some w ∧ w.toNat = ChildNumber.groupValue cs := by
  have hlt : ChildNumber.groupValue cs < 2 ^ 32 :=
    Nat.lt_of_lt_of_eq (ChildNumber.groupValue_lt hlen) (by decide)
  have hplus : cs.head? ≠ some '+' := by
    intro hhead
    have hdigit := isSome_value?_iff.mpr (h '+' (List.mem_of_head? hhead))
    exact absurd hdigit (by decide)
  refine ⟨UInt32.ofNat (ChildNumber.groupValue cs), ?_, ?_⟩
  · rw [ChildNumber.groupValue_eq] at hlt ⊢
    simp only [word?, if_neg hplus, if_neg hne, foldlM_addDigit? h hlt, Option.map_some]
  · rw [UInt32.toNat_ofNat', Nat.mod_eq_of_lt hlt]

end Hex

namespace ChildNumber

/-! ### Groups by their places -/

/-- There are as many groups as it takes eight digits at a time. -/
theorem length_groups (digits : List Char) :
    (groups digits).length = (digits.length + 7) / 8 := by
  fun_induction groups digits with
  | case1 => rfl
  | case2 digits hne ih =>
    have hpos := List.length_pos_iff.mpr hne
    rw [List.length_cons, ih, List.length_drop, groupLength]
    omega

/-- The group at a place holds the eight digits from there on. -/
theorem getElem?_groups (digits : List Char) (i : ℕ) :
    (groups digits)[i]? =
      if 8 * i < digits.length then some ((digits.drop (8 * i)).take 8) else none := by
  fun_induction groups digits generalizing i with
  | case1 => rfl
  | case2 digits hne ih =>
    have hpos := List.length_pos_iff.mpr hne
    cases i with
    | zero =>
      rw [List.getElem?_cons_zero, if_pos hpos]
      rfl
    | succ i =>
      rw [List.getElem?_cons_succ, ih, List.drop_drop, List.length_drop, groupLength,
        show 8 + 8 * i = 8 * (i + 1) by omega]
      by_cases hlt : 8 * (i + 1) < digits.length
      · rw [if_pos hlt, if_pos (by omega)]
      · rw [if_neg hlt, if_neg (by omega)]

theorem getElem_groups {digits : List Char} {i : ℕ} (hi : i < (groups digits).length) :
    (groups digits)[i] = (digits.drop (8 * i)).take 8 := by
  have hlt : 8 * i < digits.length := by
    rw [length_groups] at hi
    omega
  have hget := getElem?_groups digits i
  rw [if_pos hlt, List.getElem?_eq_getElem hi] at hget
  exact Option.some.inj hget

/-- The groups, place by place. -/
theorem groups_eq (digits : List Char) :
    groups digits =
      (List.range ((digits.length + 7) / 8)).map fun i => (digits.drop (8 * i)).take 8 := by
  refine List.ext_getElem ?_ fun i hi _ => ?_
  · rw [length_groups, List.length_map, List.length_range]
  · rw [getElem_groups hi, List.getElem_map, List.getElem_range]

/-- A group holds at least one digit and at most eight. -/
theorem length_of_mem_groups {digits g : List Char} (hg : g ∈ groups digits) :
    0 < g.length ∧ g.length ≤ 8 := by
  obtain ⟨i, hi, rfl⟩ := List.getElem_of_mem hg
  rw [getElem_groups hi, List.length_take, List.length_drop]
  rw [length_groups] at hi
  omega

/-! ### The step of a group -/

theorem groupValue_eq_ofDigits (digits : List Char) :
    groupValue digits = Nat.ofDigits 16 (digits.map Hex.number).reverse := by
  rw [← Base58.valueIn_eq, Base58.valueIn, List.foldl_map]
  rfl

/-- **The step that a group makes**, without loss on either side of the offset. -/
theorem ofGroup_cases {digits : List Char} (hlen : digits.length ≤ 8) :
    groupValue digits < 0x7fffffff ∧ (ofGroup digits).raw.toNat = groupValue digits ∨
      0x7fffffff ≤ groupValue digits ∧
        (ofGroup digits).raw.toNat + 0x7fffffff = groupValue digits := by
  have hlt : groupValue digits < 2 ^ 32 := Nat.lt_of_lt_of_eq (groupValue_lt hlen) (by decide)
  rw [ofGroup, groupOffset]
  simp only [UInt32.toNat_ofNat']
  split
  · next hlow => exact .inl ⟨hlow, by omega⟩
  · next hhigh => exact .inr ⟨by omega, by omega⟩

/-- Fewer than eight digits never make a hardened step. -/
theorem isHardened_ofGroup_of_length_lt {digits : List Char} (hlen : digits.length < 8) :
    (ofGroup digits).isHardened = false := by
  have hlt : groupValue digits < 0x7fffffff :=
    Nat.lt_trans (groupValue_lt (Nat.le_of_lt_succ hlen)) (by decide)
  rw [isHardened, hardenedStart, decide_eq_false_iff_not]
  rcases ofGroup_cases hlen.le with ⟨-, hraw⟩ | ⟨hhigh, -⟩
  · omega
  · omega

/-- **A group makes a hardened step exactly if it is eight letters f**, in either case. -/
theorem isHardened_ofGroup_iff {digits : List Char} (h : ∀ c ∈ digits, Hex.IsDigit c)
    (hlen : digits.length ≤ 8) :
    (ofGroup digits).isHardened = true ↔
      digits.length = 8 ∧ ∀ c ∈ digits, c = 'f' ∨ c = 'F' := by
  rcases Nat.lt_or_eq_of_le hlen with hlt | heq
  · rw [isHardened_ofGroup_of_length_lt hlt]
    exact iff_of_false Bool.false_ne_true fun hall => Nat.ne_of_lt hlt hall.1
  · rw [isHardened_ofGroup heq, and_iff_right heq]
    exact forall₂_congr fun c hc => Hex.number_eq_fifteen_iff (h c hc)

/-! ### The way over the bytes -/

/-- **What can go wrong** where the bytes of a nonce are cut. -/
inductive BytesFault
  /-- The nonce itself makes no path. -/
  | nonce (fault : DerivationFault)
  /-- A piece of the bytes is no text. -/
  | notText
  /-- The text of a piece writes no word. -/
  | notWord (digits : List Char)

/-- The step that a piece of the bytes makes. -/
def ofPiece (piece : Bytes) : Except BytesFault ChildNumber :=
  match Utf8.decode? piece with
  | none => .error .notText
  | some digits =>
    match Hex.word? digits with
    | none => .error (.notWord digits)
    | some w => .ok ⟨if 2147483647 ≤ w then w - 2147483647 else w⟩

/-- Bytes, eight at a time. -/
def pieces (bytes : Bytes) : List Bytes :=
  (List.range ((bytes.length + 7) / 8)).map fun i => (bytes.drop (8 * i)).take 8

/-- **The path of a nonce, over its bytes.** -/
def ofNonceBytes (nonce : String) : Except BytesFault (List ChildNumber) :=
  if nonce = "" then .error (.nonce .emptyNonce)
  else
    match nonce.toList.find? fun c => (Hex.value? c).isNone with
    | some c => .error (.nonce (.notHex c))
    | none => (pieces (Utf8.encode nonce.toList)).mapM ofPiece

/-- Digits are one byte each, so that a piece of their bytes holds the digits at its place. -/
theorem take_drop_encode {digits : List Char} (h : ∀ c ∈ digits, Hex.IsDigit c) (i : ℕ) :
    ((Utf8.encode digits).drop (8 * i)).take 8 = Utf8.encode ((digits.drop (8 * i)).take 8) := by
  have hascii : ∀ c ∈ digits, c.toNat < 0x80 := fun c hc =>
    Hex.toNat_lt_of_value? (Hex.value?_of_isDigit (h c hc))
  have hpiece : ∀ c ∈ (digits.drop (8 * i)).take 8, c.toNat < 0x80 := fun c hc =>
    hascii c (List.mem_of_mem_drop (List.mem_of_mem_take hc))
  rw [Utf8.encode_of_forall_lt hascii, Utf8.encode_of_forall_lt hpiece, List.map_take,
    List.map_drop]

theorem length_encode {digits : List Char} (h : ∀ c ∈ digits, Hex.IsDigit c) :
    (Utf8.encode digits).length = digits.length := by
  rw [Utf8.encode_of_forall_lt fun c hc => Hex.toNat_lt_of_value? (Hex.value?_of_isDigit (h c hc)),
    List.length_map]

/-- The pieces of a text of digits are its groups. -/
theorem pieces_encode {digits : List Char} (h : ∀ c ∈ digits, Hex.IsDigit c) :
    pieces (Utf8.encode digits) = (groups digits).map Utf8.encode := by
  rw [pieces, groups_eq, List.map_map, length_encode h]
  exact List.map_congr_left fun i _ => take_drop_encode h i

/-- A word makes the step of the group that it is the value of: it is subtracted from as a number
is. -/
theorem raw_ofGroup {digits : List Char} (hlen : digits.length ≤ 8) {w : UInt32}
    (hw : w.toNat = groupValue digits) :
    (w.toNat < 2147483647 → (ofGroup digits).raw = w) ∧
      (2147483647 ≤ w.toNat → (ofGroup digits).raw = w - 2147483647 ∧
        (ofGroup digits).raw.toNat + 2147483647 = w.toNat) := by
  have hcases := ofGroup_cases hlen
  rw [← hw] at hcases
  refine ⟨fun hlow => ?_, fun hhigh => ?_⟩
  · rcases hcases with ⟨-, hraw⟩ | ⟨hhigh, -⟩
    · exact UInt32.toNat_inj.mp hraw
    · omega
  · rcases hcases with ⟨hlow, -⟩ | ⟨-, hraw⟩
    · omega
    · have hle : (2147483647 : UInt32) ≤ w := UInt32.le_iff_toNat_le.mpr hhigh
      refine ⟨UInt32.toNat_inj.mp ?_, hraw⟩
      rw [UInt32.toNat_sub_of_le _ _ hle]
      exact Nat.eq_sub_of_add_eq hraw

/-- **No piece of digits is refused**, and each makes the step of its group. -/
theorem ofPiece_encode {digits : List Char} (h : ∀ c ∈ digits, Hex.IsDigit c)
    (hlen : 0 < digits.length ∧ digits.length ≤ 8) :
    ofPiece (Utf8.encode digits) = .ok (ofGroup digits) := by
  obtain ⟨w, hword, hvalue⟩ := Hex.word?_of_digits h (List.length_pos_iff.mp hlen.1) hlen.2
  obtain ⟨hlow, hhigh⟩ := raw_ofGroup hlen.2 hvalue
  have hraw : (if 2147483647 ≤ w then w - 2147483647 else w) = (ofGroup digits).raw := by
    split
    · next hle => exact (hhigh (UInt32.le_iff_toNat_le.mp hle)).1.symm
    · next hlt =>
      rw [UInt32.le_iff_toNat_le] at hlt
      exact (hlow (Nat.lt_of_not_le hlt)).symm
  rw [ofPiece, Utf8.decode?_encode]
  simp only [hword, hraw]

/-- Pieces are read one after the other. -/
theorem mapM_ofPiece {l : List (List Char)}
    (h : ∀ g ∈ l, ofPiece (Utf8.encode g) = .ok (ofGroup g)) :
    (l.map Utf8.encode).mapM ofPiece = .ok (l.map ofGroup) := by
  induction l with
  | nil => rfl
  | cons g l ih =>
    obtain ⟨hg, hrest⟩ := List.forall_mem_cons.mp h
    rw [List.map_cons, List.mapM_cons, hg, ok_bind, ih hrest]
    rfl

/-- **Both ways come to one path**: over the bytes a nonce fails only where it fails itself. -/
theorem ofNonceBytes_eq (nonce : String) :
    ofNonceBytes nonce = (ofNonce nonce).mapError .nonce := by
  have hempty : nonce.toList = [] ↔ nonce = "" := String.toList_eq_nil_iff
  rw [ofNonceBytes, ofNonce]
  by_cases hnil : nonce = ""
  · rw [if_pos hnil, if_pos (hempty.mpr hnil)]
    rfl
  · rw [if_neg hnil, if_neg (mt hempty.mp hnil)]
    cases hfind : nonce.toList.find? fun c => (Hex.value? c).isNone with
    | some c => rfl
    | none =>
      have hdigits : ∀ c ∈ nonce.toList, Hex.IsDigit c := by
        intro c hc
        have hvalue := List.find?_eq_none.mp hfind c hc
        rwa [← Option.not_isSome, Bool.not_eq_true', Bool.not_eq_false, Hex.isSome_value?_iff]
          at hvalue
      show (pieces (Utf8.encode nonce.toList)).mapM ofPiece =
        .ok ((groups nonce.toList).map ofGroup)
      rw [pieces_encode hdigits]
      refine mapM_ofPiece fun g hg => ofPiece_encode (fun c hc => ?_) (length_of_mem_groups hg)
      exact hdigits c (mem_of_mem_groups hg hc)

/-! ### Nonces -/

/-- Which nonces make a path, and which path. -/
theorem ofNonce_eq_ok_iff {nonce : String} {path : List ChildNumber} :
    ofNonce nonce = .ok path ↔
      (nonce ≠ "" ∧ ∀ c ∈ nonce.toList, Hex.IsDigit c) ∧
        path = (groups nonce.toList).map ofGroup := by
  have hempty : nonce.toList = [] ↔ nonce = "" := String.toList_eq_nil_iff
  constructor
  · intro h
    refine ⟨⟨fun hnil => ?_, fun c hc => ?_⟩, eq_of_ofNonce h⟩
    · obtain ⟨fault, hfault⟩ := ofNonce_malformed (.inl (hempty.mpr hnil))
      exact nomatch hfault.symm.trans h
    · by_contra hdigit
      rw [← Hex.isSome_value?_iff, Bool.not_eq_true, Option.isSome_eq_false_iff,
        Option.isNone_iff_eq_none] at hdigit
      obtain ⟨fault, hfault⟩ := ofNonce_malformed (.inr ⟨c, hc, hdigit⟩)
      exact nomatch hfault.symm.trans h
  · rintro ⟨⟨hne, hdigits⟩, rfl⟩
    have hfind : nonce.toList.find? (fun c => (Hex.value? c).isNone) = none := by
      refine List.find?_eq_none.mpr fun c hc => ?_
      rw [Hex.value?_of_isDigit (hdigits c hc)]
      exact Bool.false_ne_true
    rw [ofNonce, if_neg (mt hempty.mp hne), hfind]

/-- The first character that is no digit is told. -/
theorem ofNonce_of_front {nonce : String} {front rest : List Char} {c : Char}
    (hnonce : nonce.toList = front ++ c :: rest) (hfront : ∀ d ∈ front, Hex.IsDigit d)
    (hc : ¬ Hex.IsDigit c) : ofNonce nonce = .error (.notHex c) := by
  have hne : nonce.toList ≠ [] := by
    rw [hnonce]
    exact List.append_ne_nil_of_right_ne_nil _ (List.cons_ne_nil c rest)
  have hnone : ∀ d ∈ front, ¬ (Hex.value? d).isNone = true := by
    intro d hd
    rw [Hex.value?_of_isDigit (hfront d hd)]
    exact Bool.false_ne_true
  have hsome : (Hex.value? c).isNone = true := by
    rwa [← Option.not_isSome, Bool.not_eq_true', Bool.eq_false_iff, ne_eq, Hex.isSome_value?_iff]
  have hfind : nonce.toList.find? (fun c => (Hex.value? c).isNone) = some c := by
    rw [hnonce, List.find?_append, List.find?_eq_none.mpr hnone, Option.none_or]
    exact List.find?_cons_of_pos hsome
  rw [ofNonce, if_neg hne, hfind]

/-- **The step at a place of a nonce**, from the bytes that stand there: they are text, the text
writes a word, and the word, less the offset if it reaches that, is the number of the step. -/
structure StepAt (nonce : String) (i : ℕ) (step : ChildNumber) (digits : List Char) (w : UInt32) :
    Prop where
  digits_eq : digits = (nonce.toList.drop (8 * i)).take 8
  text : Utf8.decode? (((Utf8.encode nonce.toList).drop (8 * i)).take 8) = some digits
  word : Hex.word? digits = some w
  value : w.toNat = Nat.ofDigits 16 (digits.map Hex.number).reverse
  low : w.toNat < 2147483647 → step.raw = w
  /-- The subtraction within the word is the one of numbers. -/
  high : 2147483647 ≤ w.toNat →
    step.raw = w - 2147483647 ∧ step.raw.toNat + 2147483647 = w.toNat
  bound : step.raw.toNat ≤ 2 ^ 31
  hardened : step.isHardened = true ↔ digits.length = 8 ∧ ∀ c ∈ digits, c = 'f' ∨ c = 'F'

theorem exists_stepAt {nonce : String} (h : ∀ c ∈ nonce.toList, Hex.IsDigit c) {i : ℕ}
    (hi : i < (groups nonce.toList).length) :
    ∃ digits w, StepAt nonce i (ofGroup (groups nonce.toList)[i]) digits w := by
  have hgroup := List.getElem_mem hi
  have hdigits : ∀ c ∈ (groups nonce.toList)[i], Hex.IsDigit c := fun c hc =>
    h c (mem_of_mem_groups hgroup hc)
  obtain ⟨hpos, hlen⟩ := length_of_mem_groups hgroup
  rw [getElem_groups hi] at hdigits hpos hlen ⊢
  have htext : Utf8.decode? (((Utf8.encode nonce.toList).drop (8 * i)).take 8) =
      some ((nonce.toList.drop (8 * i)).take 8) := by
    rw [take_drop_encode h, Utf8.decode?_encode]
  obtain ⟨w, hword, hvalue⟩ := Hex.word?_of_digits hdigits (List.length_pos_iff.mp hpos) hlen
  obtain ⟨hlow, hhigh⟩ := raw_ofGroup hlen hvalue
  have hw := w.toNat_lt
  refine ⟨_, w, rfl, htext, hword, ?_, hlow, hhigh, ?_, isHardened_ofGroup_iff hdigits hlen⟩
  · rw [hvalue, groupValue_eq_ofDigits]
  · rcases Nat.lt_or_ge w.toNat 2147483647 with hlt | hge
    · rw [hlow hlt]
      omega
    · obtain ⟨-, hraw⟩ := hhigh hge
      omega

/-- **Which nonces make a path, and which steps it has.** A nonce makes a path exactly if it is not
empty and holds hexadecimal digits only. Otherwise every key below every master key fails with a
fault of the derivation, and the fault tells the first character that is no digit if there is one.
A path has a step for each eight digits that were begun, and each is the step of the bytes that
stand at its place. Over the bytes a nonce makes the same path or meets the same fault. -/
theorem ofNonce_steps (nonce : String) :
    ((∃ path, ofNonce nonce = .ok path) ↔
      nonce ≠ "" ∧ ∀ c ∈ nonce.toList, Hex.IsDigit c) ∧
    (nonce = "" → ofNonce nonce = .error .emptyNonce) ∧
    (∀ front c rest, nonce.toList = front ++ c :: rest → (∀ d ∈ front, Hex.IsDigit d) →
      ¬ Hex.IsDigit c → ofNonce nonce = .error (.notHex c) ∧
        (DerivationFault.notHex c).message =
          "nonce contains non-hex character " ++ Text.quoteChar c) ∧
    (∀ fault, ofNonce nonce = .error fault → ∀ master : Xpriv,
      master.signingKey nonce = .error (.derivation fault) ∧
        master.publicHalf.verifyingKey nonce = .error (.derivation fault)) ∧
    ofNonceBytes nonce = (ofNonce nonce).mapError .nonce ∧
    ∀ path, ofNonce nonce = .ok path →
      path.length = (nonce.length + 7) / 8 ∧
        ∀ (i : ℕ) (hi : i < path.length), ∃ digits w, StepAt nonce i path[i] digits w := by
  refine ⟨?_, ?_, ?_, ?_, ofNonceBytes_eq nonce, ?_⟩
  · constructor
    · rintro ⟨path, hpath⟩
      exact (ofNonce_eq_ok_iff.mp hpath).1
    · intro h
      exact ⟨_, ofNonce_eq_ok_iff.mpr ⟨h, rfl⟩⟩
  · rintro rfl
    rfl
  · intro front c rest hnonce hfront hc
    exact ⟨ofNonce_of_front hnonce hfront hc, rfl⟩
  · intro fault hfault master
    exact master.keys_of_fault hfault
  · intro path hpath
    obtain ⟨⟨-, hdigits⟩, rfl⟩ := ofNonce_eq_ok_iff.mp hpath
    have hlen : ((groups nonce.toList).map ofGroup).length = (nonce.length + 7) / 8 := by
      rw [List.length_map, length_groups, String.length_toList]
    refine ⟨hlen, fun i hi => ?_⟩
    rw [List.length_map] at hi
    rw [List.getElem_map]
    exact exists_stepAt hdigits hi

end ChildNumber

end WalletApi
