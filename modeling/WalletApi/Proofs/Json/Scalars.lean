import Mathlib.Data.List.TakeWhile
import Mathlib.Tactic.IntervalCases
import WalletApi.Json.Error
import WalletApi.Proofs.Lists
import WalletApi.Proofs.Text.Digits
import WalletApi.Proofs.Text.Utf8Order

/-!
# Numbers and strings are read as they are written

A value that is no container is found again in front of whatever may follow it: the end of the text,
a comma or a closing bracket. A whole number is written with its digits and no zero in front, and it
is read as a whole number as far as it fits sixty-four bits
(`WalletApi.Json.Doc.value_integer`). A string keeps each byte of its text except for quotes,
backslashes and control characters, whose escapes are resolved one by one
(`WalletApi.Json.Doc.readString_written`); the bytes of a character outside ASCII are never taken
for one of these.
-/

namespace WalletApi

/-! ### Characters as bytes -/

namespace Utf8

open Json.Doc (ascii)

theorem encode_cons_of_lt {c : Char} (h : c.toNat < 0x80) (cs : List Char) :
    encode (c :: cs) = ascii c :: encode cs := by
  rw [encode_cons, encodeChar_of_lt h, List.singleton_append]
  rfl

theorem length_le_length_encode (cs : List Char) : cs.length ≤ (encode cs).length := by
  induction cs with
  | nil => exact Nat.le_refl 0
  | cons c cs ih =>
    have hpos := c.utf8Size_pos
    rw [encode_cons, List.length_append, String.length_utf8EncodeChar, List.length_cons]
    omega

end Utf8

namespace Json

open Doc (ascii isDigit)

/-! ### Whole numbers -/

/-- What may follow a value that is written inside a text. -/
def Doc.Follows (rest : Bytes) : Prop :=
  ∀ b ∈ rest.head?, b = ascii ',' ∨ b = ascii ']' ∨ b = ascii '\x7d'

theorem Number.le_foldl_digits (n : ℕ) (ds : List ℕ) :
    n ≤ ds.foldl (fun n d => n * 10 + d) n := by
  induction ds generalizing n with
  | nil => exact Nat.le_refl n
  | cons d ds ih => exact Nat.le_trans (by omega) (ih (n * 10 + d))

theorem Number.takeDigits_eq_nil {n : ℕ} {ds : List ℕ}
    (h : ds.foldl (fun n d => n * 10 + d) n ≤ unsignedMax) :
    takeDigits n ds = (ds.foldl (fun n d => n * 10 + d) n, []) := by
  induction ds generalizing n with
  | nil => rfl
  | cons d ds ih =>
    have hfirst : n * 10 + d ≤ unsignedMax :=
      Nat.le_trans (Number.le_foldl_digits (n * 10 + d) ds) h
    rw [takeDigits, if_pos hfirst]
    exact ih h

theorem Number.takeDigits_digitValues {n : ℕ} (h : n ≤ unsignedMax) :
    takeDigits 0 (Decimal.digitValues n) = (n, []) := by
  have hfold := Decimal.foldl_digitValues n
  rw [takeDigits_eq_nil (by rwa [hfold]), hfold]

namespace Doc

variable {rest : Bytes}

theorem toNat_ascii {c : Char} (h : c.toNat < 0x100) : (ascii c).toNat = c.toNat :=
  UInt8.toNat_ofNat_of_lt' h

theorem isDigit_ascii {c : Char} (h : c.isDigit = true) : isDigit (ascii c) = true := by
  have hrange : 48 ≤ c.toNat ∧ c.toNat ≤ 57 := Char.isDigit_iff_toNat.mp h
  rw [isDigit, Bool.and_eq_true, decide_eq_true_eq, decide_eq_true_eq, UInt8.le_iff_toNat_le,
    UInt8.le_iff_toNat_le, toNat_ascii (by omega)]
  exact hrange

theorem isDigit_of_follows (h : Follows rest) : ∀ b ∈ rest.head?, isDigit b = false := by
  intro b hb
  rcases h b hb with rfl | rfl | rfl <;> decide

theorem encode_toDigits (n : ℕ) :
    Utf8.encode (Nat.toDigits 10 n) = (Nat.toDigits 10 n).map ascii := by
  refine Utf8.encode_of_forall_lt fun c hc => ?_
  have hrange := Char.isDigit_iff_toNat.mp (Decimal.isDigit_of_mem_toDigits hc)
  exact Nat.lt_of_le_of_lt hrange.2 (by decide)

/-- The digits of a written number are found, and what follows them is left. -/
theorem digits_written (n : ℕ) (h : Follows rest) :
    digits (Utf8.encode (Nat.toDigits 10 n) ++ rest) = (Decimal.digitValues n, rest) := by
  have hall : ∀ b ∈ (Nat.toDigits 10 n).map ascii, isDigit b = true := by
    intro b hb
    obtain ⟨c, hc, rfl⟩ := List.mem_map.mp hb
    exact isDigit_ascii (Decimal.isDigit_of_mem_toDigits hc)
  have hend := isDigit_of_follows h
  rw [encode_toDigits, digits, takeWhile_append_of_head? hend, dropWhile_append_of_head? hend,
    List.takeWhile_eq_self_iff.mpr hall, List.dropWhile_eq_nil_iff.mpr hall, List.nil_append,
    List.map_map, Decimal.digitValues]
  refine Prod.ext (List.map_congr_left fun c hc => ?_) rfl
  have hrange := Char.isDigit_iff_toNat.mp (Decimal.isDigit_of_mem_toDigits hc)
  have hlt : c.toNat < 0x100 := Nat.lt_of_le_of_lt hrange.2 (by decide)
  rw [Function.comp_apply, toNat_ascii hlt]

theorem wholeDigits_written (n : ℕ) (h : Follows rest) :
    wholeDigits (Utf8.encode (Nat.toDigits 10 n) ++ rest) =
      .ok (Decimal.digitValues n, rest) := by
  obtain ⟨d, ds, hds, hzero⟩ := Decimal.exists_digitValues n
  rw [wholeDigits, digits_written n h, hds]
  match d, ds, hzero with
  | 0, [], _ => rfl
  | 0, _ :: _, hzero => exact nomatch hzero rfl
  | _ + 1, _, _ => rfl

theorem fractionDigits_of_follows (h : Follows rest) : fractionDigits rest = .ok (none, rest) := by
  cases rest with
  | nil => rfl
  | cons b bs => rcases h b rfl with rfl | rfl | rfl <;> rfl

theorem exponentPart_of_follows (h : Follows rest) : exponentPart rest = .ok (none, rest) := by
  cases rest with
  | nil => rfl
  | cons b bs => rcases h b rfl with rfl | rfl | rfl <;> rfl

theorem numeral_written (negative : Bool) (n : ℕ) (h : Follows rest) :
    numeral negative (Utf8.encode (Nat.toDigits 10 n) ++ rest) =
      .ok (⟨negative, Decimal.digitValues n, none, none⟩, rest) := by
  rw [numeral, wholeDigits_written n h]
  show (fractionDigits rest >>= _) = _
  rw [fractionDigits_of_follows h]
  show (exponentPart rest >>= _) = _
  rw [exponentPart_of_follows h]
  rfl

/-- A natural number of at most sixty-four bits is read as it is written. -/
theorem numberFrom_nat {n : ℕ} (hn : n ≤ Number.unsignedMax) (h : Follows rest) :
    numberFrom false (Utf8.encode (Nat.toDigits 10 n) ++ rest) =
      (.number (.integer n), some rest) := by
  rw [numberFrom, numeral_written false n h]
  simp only [Number.ofNumeral, Number.takeDigits_digitValues hn, if_true]

/-- So is, after its sign, a negative number of at most sixty-four bits. -/
theorem numberFrom_neg {n : ℕ} (hpos : 0 < n) (hn : n ≤ Nat.pow 2 63) (h : Follows rest) :
    numberFrom true (Utf8.encode (Nat.toDigits 10 n) ++ rest) =
      (.number (.integer (-n)), some rest) := by
  have hmax : n ≤ Number.unsignedMax := Nat.le_trans hn (by decide)
  have hcond : ¬ (n = 0 ∨ Nat.pow 2 63 < n) := by omega
  rw [numberFrom, numeral_written true n h]
  simp only [Number.ofNumeral, Number.takeDigits_digitValues hmax, if_neg hcond, Bool.true_eq_false,
    if_false]

theorem ne_of_isDigit {b : UInt8} (h : isDigit b = true) {c : Char}
    (hc : isDigit (ascii c) = false) : b ≠ ascii c := by
  rintro rfl
  exact Bool.false_ne_true (hc.symm.trans h)

theorem leaf_digit {b : UInt8} (h : isDigit b = true) (bs : Bytes) :
    leaf b bs = numberFrom false (b :: bs) := by
  rw [leaf, if_neg (ne_of_isDigit h rfl), if_neg (ne_of_isDigit h rfl),
    if_neg (ne_of_isDigit h rfl), if_neg (ne_of_isDigit h rfl), if_neg (ne_of_isDigit h rfl),
    if_pos h]

theorem skipBlanks_cons {b : UInt8} (hb : isBlank b = false) (bs : Bytes) :
    skipBlanks (b :: bs) = b :: bs :=
  List.dropWhile_cons_of_neg (Bool.not_eq_true _ ▸ hb)

/-- A value that begins with no blank and no bracket is no container. -/
theorem value_of_leaf {b : UInt8} (fuel : ℕ) (hblank : isBlank b = false) (hsquare : b ≠ ascii '[')
    (hcurly : b ≠ ascii '\x7b') (bs : Bytes) : value (fuel + 1) (b :: bs) = leaf b bs := by
  rw [value, skipBlanks_cons hblank]
  simp only [if_neg hsquare, if_neg hcurly]

theorem isBlank_of_isDigit {b : UInt8} (h : isDigit b = true) : isBlank b = false := by
  rw [isDigit, Bool.and_eq_true, decide_eq_true_eq, decide_eq_true_eq] at h
  have hne : ∀ c : UInt8, c < 0x30 → (b == c) = false := fun c hc =>
    beq_eq_false_iff_ne.mpr fun heq => UInt8.not_le.mpr hc (heq ▸ h.1)
  rw [isBlank, hne _ (by decide), hne _ (by decide), hne _ (by decide), hne _ (by decide)]
  rfl

theorem exists_encode_toDigits (n : ℕ) :
    ∃ b bs, Utf8.encode (Nat.toDigits 10 n) = b :: bs ∧ isDigit b = true := by
  rw [encode_toDigits]
  cases hdigits : Nat.toDigits 10 n with
  | nil => exact absurd hdigits Nat.toDigits_ne_nil
  | cons c cs =>
    exact ⟨ascii c, cs.map ascii, rfl,
      isDigit_ascii (Decimal.isDigit_of_mem_toDigits (hdigits ▸ List.mem_cons_self))⟩

/-- A whole number is written with its digits, after a sign if it is negative. -/
theorem encode_integer (n : ℤ) :
    (∃ m : ℕ, n = m ∧
      Utf8.encode (Number.integer n).text.toList = Utf8.encode (Nat.toDigits 10 m)) ∨
    ∃ m : ℕ, n = -m ∧ 0 < m ∧ Utf8.encode (Number.integer n).text.toList =
      ascii '-' :: Utf8.encode (Nat.toDigits 10 m) := by
  rw [Number.text, Int.toString_eq_repr, Int.repr_eq_if]
  split
  · next hn =>
    refine .inl ⟨n.toNat, (Int.toNat_of_nonneg hn).symm, ?_⟩
    rw [Nat.repr_eq_ofList_toDigits, String.toList_ofList]
  · next hn =>
    refine .inr ⟨(-n).toNat, by omega, by omega, ?_⟩
    rw [Nat.repr_eq_ofList_toDigits, String.toList_append, String.toList_ofList,
      String.toList_ofList, List.singleton_append, Utf8.encode_cons_of_lt (by decide)]

/-- **A whole number of sixty-four bits is read as it is written.** -/
theorem value_integer {n : ℤ} (hlow : -(Nat.pow 2 63 : ℕ) ≤ n) (hhigh : n ≤ Number.unsignedMax)
    (fuel : ℕ) (h : Follows rest) :
    value (fuel + 1) (Utf8.encode (Number.integer n).text.toList ++ rest) =
      (.number (.integer n), some rest) := by
  rcases encode_integer n with ⟨m, rfl, hbytes⟩ | ⟨m, rfl, hpos, hbytes⟩
  · obtain ⟨b, bs, hdigits, hb⟩ := exists_encode_toDigits m
    have hread := numberFrom_nat (n := m) (by omega) h
    rw [hdigits, List.cons_append] at hread
    rw [hbytes, hdigits, List.cons_append, value_of_leaf fuel (isBlank_of_isDigit hb)
      (ne_of_isDigit hb rfl) (ne_of_isDigit hb rfl), leaf_digit hb, hread]
  · rw [hbytes, List.cons_append, value_of_leaf fuel (by decide) (by decide) (by decide)]
    exact numberFrom_neg hpos (by omega) h

/-! ### Strings -/

theorem stringBytes_plain {b : UInt8} (hquote : b ≠ ascii '"') (hslash : b ≠ ascii '\\')
    (hcontrol : 0x20 ≤ b.toNat) (done bs : Bytes) :
    stringBytes done (b :: bs) = stringBytes (b :: done) bs := by
  have hlt : ¬ b < 0x20 := fun h => Nat.not_lt.mpr hcontrol (UInt8.lt_iff_toNat_lt.mp h)
  rw [stringBytes.eq_def]
  simp only [if_neg hquote, if_neg hslash, if_neg hlt]

/-- Bytes outside ASCII are kept as they are. -/
theorem stringBytes_high {mid : Bytes} (h : ∀ b ∈ mid, 0x80 ≤ b.toNat) (done bs : Bytes) :
    stringBytes done (mid ++ bs) = stringBytes (mid.reverse ++ done) bs := by
  induction mid generalizing done with
  | nil => rfl
  | cons b mid ih =>
    have hb := h b List.mem_cons_self
    have hne : ∀ c : Char, c.toNat < 0x80 → b ≠ ascii c := by
      rintro c hc rfl
      rw [toNat_ascii (by omega)] at hb
      omega
    rw [List.cons_append, stringBytes_plain (hne _ (by decide)) (hne _ (by decide)) (by omega),
      ih fun a ha => h a (List.mem_cons_of_mem b ha), List.reverse_cons, List.append_assoc,
      List.singleton_append]

theorem stringBytes_short {e b : UInt8} (hu : e ≠ ascii 'u') (h : shortEscape? e = some b)
    (done bs : Bytes) : stringBytes done (ascii '\\' :: e :: bs) = stringBytes (b :: done) bs := by
  have hquote : ascii '\\' ≠ ascii '"' := by decide
  rw [stringBytes.eq_def]
  simp only [if_neg hquote, if_true, if_neg hu, h]

theorem stringBytes_numbered {a b c d : UInt8} {n : ℕ} (h : unit? a b c d = some n)
    (hlow : isLow n = false) (hhigh : isHigh n = false) (done bs : Bytes) :
    stringBytes done (ascii '\\' :: ascii 'u' :: a :: b :: c :: d :: bs) =
      stringBytes (pushChar (Char.ofNat n) done) bs := by
  have hquote : ascii '\\' ≠ ascii '"' := by decide
  rw [stringBytes.eq_def]
  simp only [if_neg hquote, if_true, h, hlow, hhigh, Bool.false_eq_true, if_false]

theorem hexValue?_digitChar {n : ℕ} (h : n < 16) : hexValue? (ascii n.digitChar) = some n := by
  interval_cases n <;> rfl

/-- The numbered escape of a control character stands for it. -/
theorem unit?_control {n : ℕ} (h : n < 0x20) :
    unit? (ascii '0') (ascii '0') (ascii (n / 16).digitChar) (ascii (n % 16).digitChar) =
      some n := by
  have hzero : hexValue? (ascii '0') = some 0 := rfl
  rw [unit?, hexValue?_digitChar (by omega : n / 16 < 16),
    hexValue?_digitChar (Nat.mod_lt n (by decide)), hzero]
  refine congrArg some ?_
  omega

theorem pushChar_of_lt {c : Char} (h : c.toNat < 0x80) (done : Bytes) :
    pushChar c done = ascii c :: done := by
  rw [pushChar, Utf8.encodeChar_of_lt h]
  rfl

theorem encode_escape (c : Char) (h : c.toNat < 0x80) (bs : Bytes) :
    Utf8.encode ['\\', c] ++ bs = ascii '\\' :: ascii c :: bs := by
  have hall : ∀ d ∈ ['\\', c], d.toNat < 0x80 := by
    intro d hd
    rcases List.mem_cons.mp hd with rfl | hd
    · decide
    · rwa [List.mem_singleton.mp hd]
  rw [Utf8.encode_of_forall_lt hall]
  rfl

theorem stringBytes_letter {c e : Char} (hwritten : Value.escaped c = ['\\', e])
    (hu : ascii e ≠ ascii 'u') (hescape : shortEscape? (ascii e) = some (ascii c))
    (he : e.toNat < 0x80) (hc : c.toNat < 0x80) (done bs : Bytes) :
    stringBytes done (Utf8.encode (Value.escaped c) ++ bs) = stringBytes (pushChar c done) bs := by
  rw [hwritten, encode_escape e he, stringBytes_short hu hescape, pushChar_of_lt hc]

theorem toNat_digitChar_lt {n : ℕ} (h : n < 16) : n.digitChar.toNat < 0x80 := by
  interval_cases n <;> decide

/-- The escape of a control character that has no letter. -/
theorem stringBytes_control {c : Char} (h : c.toNat < 0x20) (done bs : Bytes) :
    stringBytes done (Utf8.encode
      ['\\', 'u', '0', '0', (c.toNat / 16).digitChar, (c.toNat % 16).digitChar] ++ bs) =
      stringBytes (pushChar c done) bs := by
  have hall : ∀ d ∈ ['\\', 'u', '0', '0', (c.toNat / 16).digitChar, (c.toNat % 16).digitChar],
      d.toNat < 0x80 := by
    simp only [List.forall_mem_cons]
    exact ⟨by decide, by decide, by decide, by decide, toNat_digitChar_lt (by omega),
      toNat_digitChar_lt (by omega), List.forall_mem_nil _⟩
  have hlow : isLow c.toNat = false := by
    rw [isLow, decide_eq_false (by omega), Bool.false_and]
  have hhigh : isHigh c.toNat = false := by
    rw [isHigh, decide_eq_false (by omega), Bool.false_and]
  have hread := stringBytes_numbered (unit?_control h) hlow hhigh done bs
  rw [Char.ofNat_toNat] at hread
  rw [Utf8.encode_of_forall_lt hall]
  exact hread

theorem ascii_ne {c d : Char} (hc : c.toNat < 0x80) (hd : d.toNat < 0x80) (h : c ≠ d) :
    ascii c ≠ ascii d := by
  intro heq
  have hnat := congrArg UInt8.toNat heq
  rw [toNat_ascii (by omega), toNat_ascii (by omega)] at hnat
  exact h (Char.toNat_inj.mp hnat)

/-- A character that needs no escape. -/
theorem stringBytes_unescaped {c : Char} (hquote : c ≠ '"') (hslash : c ≠ '\\')
    (hcontrol : 0x20 ≤ c.toNat) (done bs : Bytes) :
    stringBytes done (Utf8.encode [c] ++ bs) = stringBytes (pushChar c done) bs := by
  rw [Utf8.encode_cons, Utf8.encode_nil, List.append_nil]
  rcases Nat.lt_or_ge c.toNat 0x80 with hlt | hge
  · rw [Utf8.encodeChar_of_lt hlt, pushChar_of_lt hlt]
    exact stringBytes_plain (ascii_ne hlt (by decide) hquote) (ascii_ne hlt (by decide) hslash)
      (by rwa [toNat_ascii (by omega)]) done bs
  · exact stringBytes_high (fun b hb => Utf8.le_of_mem_encodeChar hge hb) done bs

/-- **A character inside the quotes of a string is read as it is written.** -/
theorem stringBytes_escaped (c : Char) (done bs : Bytes) :
    stringBytes done (Utf8.encode (Value.escaped c) ++ bs) = stringBytes (pushChar c done) bs := by
  by_cases hletter : c ∈ ['"', '\\', '\x08', '\x0c', '\n', '\r', '\t']
  · simp only [List.mem_cons, List.not_mem_nil, or_false] at hletter
    rcases hletter with rfl | rfl | rfl | rfl | rfl | rfl | rfl <;>
      exact stringBytes_letter rfl (by decide) rfl (by decide) (by decide) done bs
  · simp only [List.mem_cons, List.not_mem_nil, or_false, not_or] at hletter
    obtain ⟨hquote, hslash, hback, hfeed, hline, hreturn, htab⟩ := hletter
    rw [Value.escaped, if_neg hquote, if_neg hslash, if_neg hback, if_neg hfeed, if_neg hline,
      if_neg hreturn, if_neg htab]
    split
    · next h => exact stringBytes_control h done bs
    · next h => exact stringBytes_unescaped hquote hslash (Nat.not_lt.mp h) done bs

/-- The bytes of a string are found up to its closing quote. -/
theorem stringBytes_written (cs : List Char) (done rest : Bytes) :
    stringBytes done (Utf8.encode (cs.flatMap Value.escaped) ++ ascii '"' :: rest) =
      .ok (done.reverse ++ Utf8.encode cs, rest) := by
  induction cs generalizing done with
  | nil =>
    rw [stringBytes.eq_def, List.flatMap_nil, Utf8.encode_nil, List.append_nil]
    exact if_pos rfl
  | cons c cs ih =>
    rw [List.flatMap_cons, Utf8.encode_append, List.append_assoc, stringBytes_escaped, ih, pushChar,
      List.reverse_append, List.reverse_reverse, List.append_assoc, Utf8.encode_cons]

/-- **A string is read as it is written.** -/
theorem readString_written (s : String) (rest : Bytes) :
    readString (Utf8.encode (s.toList.flatMap Value.escaped) ++ ascii '"' :: rest) =
      .ok (s, rest) := by
  have hbytes := stringBytes_written s.toList [] rest
  rw [List.reverse_nil, List.nil_append] at hbytes
  simp only [readString, hbytes, bind, Except.bind, Utf8.decode?_encode, String.ofList_toList]

theorem encode_stringChars (s : String) (rest : Bytes) :
    Utf8.encode (Value.stringChars s) ++ rest =
      ascii '"' :: (Utf8.encode (s.toList.flatMap Value.escaped) ++ ascii '"' :: rest) := by
  rw [Value.stringChars, Utf8.encode_cons_of_lt (by decide), Utf8.encode_append,
    Utf8.encode_cons_of_lt (by decide), Utf8.encode_nil, List.cons_append, List.append_assoc,
    List.singleton_append]

theorem stringFrom_written (s : String) (rest : Bytes) :
    stringFrom (Utf8.encode (s.toList.flatMap Value.escaped) ++ ascii '"' :: rest) =
      (.string s, some rest) := by
  rw [stringFrom, readString_written]

theorem value_string (s : String) (fuel : ℕ) (rest : Bytes) :
    value (fuel + 1) (Utf8.encode (Value.stringChars s) ++ rest) = (.string s, some rest) := by
  rw [encode_stringChars, value_of_leaf fuel (by decide) (by decide) (by decide), leaf, if_pos rfl,
    stringFrom_written]

/-- The key of a member is read as it is written. -/
theorem keyFrom_written (s : String) (rest : Bytes) :
    keyFrom (Utf8.encode (Value.stringChars s) ++ rest) = (.string s, some rest) := by
  rw [encode_stringChars, keyFrom]
  exact stringFrom_written s rest

end Doc

end Json

end WalletApi
