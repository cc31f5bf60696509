import Mathlib.Data.List.TakeWhile
import Mathlib.Data.Nat.Digits.Lemmas
import Mathlib.Tactic.Ring
import WalletApi.Proofs.Lists
import WalletApi.Proofs.Text.Digits
import WalletApi.Text.Base58
import WalletApi.Text.Blank

/-!
# Reading Base58 text back

A byte string has the same value as its digits in base 58, and both lose their leading zeros when
they are read as a number. The writing keeps those zeros apart, as leading ones, so nothing is lost:

* `WalletApi.Base58.decode?_encode` – reading a written byte string gives it back;
* `WalletApi.Base58.decodeChecked?_encodeChecked` – so does reading one that was written with its
  checksum;
* `WalletApi.Base58.trim_encode` – there are no blanks to be lost at the ends.

The ones and the digits of the number settle the text, so there is no other writing of what is read
from it (`WalletApi.Base58.encode_of_decode?`, `WalletApi.Base58.decodeChecked?_eq_some_iff`).

The digits of a number are those of `Nat.digits`, most significant first, and what is needed about
them comes from there.
-/

namespace WalletApi.Base58

/-! ### Digits and their values -/

/-- The number that digits write in a base, most significant first. -/
def valueIn (base : ℕ) (ds : List ℕ) : ℕ := ds.foldl (fun n v => n * base + v) 0

section Digits

variable {base : ℕ} (hbase : 1 < base)

include hbase

theorem digitsIn_eq (n : ℕ) : digitsIn base n = (Nat.digits base n).reverse := by
  induction n using Nat.strong_induction_on with
  | _ n ih =>
    rw [digitsIn]
    by_cases hn : n = 0
    · rw [dif_pos (.inl hn), hn, Nat.digits_zero, List.reverse_nil]
    · have hpos := Nat.pos_of_ne_zero hn
      rw [dif_neg (by omega), ih _ (Nat.div_lt_self hpos hbase), Nat.digits_def' hbase hpos,
        List.reverse_cons]

theorem lt_of_mem_digitsIn {n d : ℕ} (h : d ∈ digitsIn base n) : d < base := by
  rw [digitsIn_eq hbase, List.mem_reverse] at h
  exact Nat.digits_lt_base hbase h

theorem ne_zero_of_head?_digitsIn {n d : ℕ} (h : (digitsIn base n).head? = some d) : d ≠ 0 := by
  rw [digitsIn_eq hbase, List.head?_reverse] at h
  have hne : Nat.digits base n ≠ [] := fun hnil => by rw [hnil] at h; exact nomatch h
  have hn : n ≠ 0 := Nat.digits_ne_nil_iff_ne_zero.mp hne
  rw [List.getLast?_eq_some_getLast hne] at h
  exact Option.some.inj h ▸ Nat.getLast_digit_ne_zero base hn

omit hbase in
theorem valueIn_eq (ds : List ℕ) : valueIn base ds = Nat.ofDigits base ds.reverse := by
  rw [Nat.ofDigits_eq_foldr, List.foldr_reverse, valueIn]
  congr 1
  funext n v
  rw [mul_comm, add_comm]
  rfl

/-- The digits of a number have its value. -/
theorem valueIn_digitsIn (n : ℕ) : valueIn base (digitsIn base n) = n := by
  rw [digitsIn_eq hbase, valueIn_eq, List.reverse_reverse, Nat.ofDigits_digits]

/-- Digits without a leading zero are the digits of their value. -/
theorem digitsIn_valueIn {ds : List ℕ} (hlt : ∀ d ∈ ds, d < base)
    (hhead : ∀ d, ds.head? = some d → d ≠ 0) : digitsIn base (valueIn base ds) = ds := by
  have hlast : ∀ h : ds.reverse ≠ [], ds.reverse.getLast h ≠ 0 := fun h => by
    refine hhead _ ?_
    rw [← List.getLast?_reverse, List.getLast?_eq_some_getLast h]
  rw [digitsIn_eq hbase, valueIn_eq,
    Nat.digits_ofDigits base hbase _ (fun d hd => hlt d (List.mem_reverse.mp hd)) hlast,
    List.reverse_reverse]

end Digits

/-- Leading zeros add nothing to a value. -/
theorem valueIn_zeros_append (base k : ℕ) (ds : List ℕ) :
    valueIn base (List.replicate k 0 ++ ds) = valueIn base ds := by
  induction k with
  | zero => rfl
  | succ k ih => rw [List.replicate_succ, List.cons_append, ← ih, valueIn, List.foldl_cons,
      Nat.zero_mul]; rfl

/-- Digits are the leading zeros and the digits of the value. -/
theorem zeros_append_digitsIn {base : ℕ} (hbase : 1 < base) {ds : List ℕ}
    (h : ∀ d ∈ ds, d < base) :
    List.replicate (ds.takeWhile (· == 0)).length 0 ++ digitsIn base (valueIn base ds) = ds := by
  have hzeros : List.replicate (ds.takeWhile (· == 0)).length 0 = ds.takeWhile (· == 0) :=
    (List.eq_replicate_of_mem fun _ hd =>
      eq_of_beq (List.mem_takeWhile_imp (p := (· == 0)) hd)).symm
  have hvalue : valueIn base ds = valueIn base (ds.dropWhile (· == 0)) := by
    conv_lhs => rw [← List.takeWhile_append_dropWhile (p := (· == 0)) (l := ds), ← hzeros]
    exact valueIn_zeros_append _ _ _
  have hhead : ∀ d, (ds.dropWhile (· == 0)).head? = some d → d ≠ 0 := by
    intro d hd
    have hnot := List.head?_dropWhile_not (· == 0) ds
    rw [hd] at hnot
    simpa using hnot
  rw [hvalue, digitsIn_valueIn hbase (fun d hd => h d (List.dropWhile_subset _ hd)) hhead, hzeros,
    List.takeWhile_append_dropWhile]

/-! ### Byte strings -/

theorem toNat_eq_valueIn (bs : Bytes) : bs.toNat = valueIn 256 (bs.map UInt8.toNat) := by
  rw [Bytes.toNat, valueIn, List.foldl_map]

theorem takeWhile_zero (bs : Bytes) :
    bs.takeWhile (· == 0) = List.replicate (bs.takeWhile (· == 0)).length 0 :=
  List.eq_replicate_of_mem fun _ hb =>
    eq_of_beq (List.mem_takeWhile_imp (p := (· == 0)) hb)

/-- Leading zeros do not count. -/
theorem toNat_dropWhile (bs : Bytes) : Bytes.toNat (bs.dropWhile (· == 0)) = bs.toNat := by
  conv_rhs => rw [← List.takeWhile_append_dropWhile (p := (· == 0)) (l := bs)]
  rw [toNat_eq_valueIn, toNat_eq_valueIn, List.map_append, takeWhile_zero, List.map_replicate]
  exact (valueIn_zeros_append _ _ _).symm

/-- The digits of a byte string's value in base 256 are its bytes after the leading zeros. -/
theorem digitsIn_toNat (bs : Bytes) :
    (digitsIn 256 bs.toNat).map UInt8.ofNat = bs.dropWhile (· == 0) := by
  have hlt : ∀ d ∈ (bs.dropWhile (· == 0)).map UInt8.toNat, d < 256 := by
    intro d hd
    obtain ⟨b, -, rfl⟩ := List.mem_map.mp hd
    exact b.toNat_lt
  have hhead : ∀ d, ((bs.dropWhile (· == 0)).map UInt8.toNat).head? = some d → d ≠ 0 := by
    intro d hd hzero
    rw [List.head?_map, Option.map_eq_some_iff] at hd
    obtain ⟨b, hb, rfl⟩ := hd
    have hne : b ≠ 0 := by
      have hnot := List.head?_dropWhile_not (· == 0) bs
      rw [hb] at hnot
      simpa using hnot
    exact hne (UInt8.toNat_inj.mp hzero)
  -- Digits without a leading zero are determined by their value.
  rw [← toNat_dropWhile, toNat_eq_valueIn, digitsIn_valueIn (by omega) hlt hhead, List.map_map]
  exact List.map_id'' (fun b => UInt8.ofNat_toNat) _

/-! ### The writing -/

theorem value?_digit : ∀ n : Fin 58, value? (digit n.val) = some n.val := by decide +kernel

theorem isBlank_digit : ∀ n : Fin 58, Text.isBlank (digit n.val) = false := by decide +kernel

theorem digit_eq_one : ∀ n : Fin 58, digit n.val = '1' → n.val = 0 := by decide +kernel

/-- The digits of a text that writes digits below fifty-eight are these. -/
theorem mapM_value? {ds : List ℕ} (h : ∀ d ∈ ds, d < 58) :
    (ds.map digit).mapM value? = some ds := by
  induction ds with
  | nil => rfl
  | cons d ds ih =>
    have hd := value?_digit ⟨d, h d List.mem_cons_self⟩
    rw [List.map_cons, List.mapM_cons, hd, ih fun v hv => h v (List.mem_cons_of_mem d hv)]
    rfl

/-- A byte string is written as digits: a zero for each of its leading zeros, and those of its
value. -/
theorem encode_eq (bs : Bytes) :
    encode bs = (List.replicate (bs.takeWhile (· == 0)).length 0
      ++ digitsIn 58 bs.toNat).map digit := by
  rw [encode, List.map_append, List.map_replicate, ← List.map_const']
  rfl

/-- A written byte string holds digits only. -/
theorem exists_digit_of_mem_encode {bs : Bytes} {c : Char} (h : c ∈ encode bs) :
    ∃ d < 58, digit d = c := by
  rw [encode_eq] at h
  obtain ⟨d, hd, rfl⟩ := List.mem_map.mp h
  rcases List.mem_append.mp hd with hd | hd
  · rw [List.eq_of_mem_replicate hd]
    exact ⟨0, by omega, rfl⟩
  · exact ⟨d, lt_of_mem_digitsIn (by omega) hd, rfl⟩

/-- The leading ones of a written byte string stand for its leading zeros. -/
theorem takeWhile_encode (bs : Bytes) :
    (encode bs).takeWhile (· == '1') =
      List.replicate (bs.takeWhile (· == 0)).length '1' := by
  -- The digits of the value do not begin with zero, so no more ones follow.
  have hrest : ((digitsIn 58 bs.toNat).map digit).takeWhile (· == '1') = [] := by
    cases hds : digitsIn 58 bs.toNat with
    | nil => rfl
    | cons d ds =>
      have hlt : d < 58 := lt_of_mem_digitsIn (by omega) (hds ▸ List.mem_cons_self)
      have hhead : (digitsIn 58 bs.toNat).head? = some d := by rw [hds, List.head?_cons]
      have hne : d ≠ 0 := ne_zero_of_head?_digitsIn (by omega) hhead
      refine List.takeWhile_cons_of_neg fun hone => hne ?_
      exact digit_eq_one ⟨d, hlt⟩ (eq_of_beq hone)
  have hones : ∀ c ∈ List.replicate (bs.takeWhile (· == 0)).length '1', (c == '1') = true :=
    fun c hc => beq_iff_eq.mpr (List.eq_of_mem_replicate hc)
  rw [encode_eq, List.map_append, List.map_replicate]
  exact (List.takeWhile_append_of_pos hones).trans (by rw [hrest, List.append_nil])

/-- **Reading a written byte string gives it back.** -/
theorem decode?_encode (bs : Bytes) : decode? (encode bs) = some bs := by
  have hvalues : (encode bs).mapM value? =
      some (List.replicate (bs.takeWhile (· == 0)).length 0 ++ digitsIn 58 bs.toNat) := by
    rw [encode_eq]
    refine mapM_value? fun d hd => ?_
    rcases List.mem_append.mp hd with hd | hd
    · rw [List.eq_of_mem_replicate hd]
      omega
    · exact lt_of_mem_digitsIn (by omega) hd
  have hdigits : valueIn 58 (digitsIn 58 bs.toNat) = bs.toNat := valueIn_digitsIn (by omega) _
  have hvalue := (valueIn_zeros_append 58 (bs.takeWhile (· == 0)).length _).trans hdigits
  rw [valueIn] at hvalue
  rw [decode?, hvalues, takeWhile_encode, List.map_replicate, ← takeWhile_zero]
  simp only [Option.bind_eq_bind, Option.bind_some, hvalue, digitsIn_toNat,
    List.takeWhile_append_dropWhile]

theorem length_checksum (bs : Bytes) : (checksum bs).length = 4 := by
  rw [checksum, List.length_take, Sha256.length_double]
  rfl

/-- **Reading a byte string written with its checksum gives it back.** -/
theorem decodeChecked?_encodeChecked (bs : Bytes) :
    decodeChecked? (encodeChecked bs) = some bs := by
  have hlen : (bs ++ checksum bs).length = bs.length + 4 := by
    rw [List.length_append, length_checksum]
  have hlong : ¬ bs.length + 4 < 4 := by omega
  rw [decodeChecked?, encodeChecked, decode?_encode]
  simp only [Option.bind_eq_bind, Option.bind_some, hlen, if_neg hlong, Nat.add_sub_cancel,
    List.take_left', List.drop_left', if_true]

/-- A written byte string holds no blanks, so nothing is trimmed off it. -/
theorem trim_encode (bs : Bytes) : Text.trim (encode bs) = encode bs := by
  refine Text.trim_of_forall fun c hc => ?_
  obtain ⟨d, hd, rfl⟩ := exists_digit_of_mem_encode hc
  exact isBlank_digit ⟨d, hd⟩

/-! ### One writing only -/

theorem digit_of_value? {c : Char} {d : ℕ} (h : value? c = some d) : d < 58 ∧ digit d = c := by
  obtain ⟨hlt, hget, -⟩ := List.idxOf?_eq_some_iff.mp h
  refine ⟨hlt, ?_⟩
  rw [digit, List.getD_eq_getElem?_getD, List.getElem?_eq_getElem hlt, Option.getD_some, hget]

/-- A text that is read as digits consists of these digits, and its leading ones are zeros. -/
theorem digits_of_mapM_value? {cs : List Char} {ds : List ℕ} (h : cs.mapM value? = some ds) :
    ds.map digit = cs ∧ (∀ d ∈ ds, d < 58) ∧
      (cs.takeWhile (· == '1')).length = (ds.takeWhile (· == 0)).length := by
  induction cs generalizing ds with
  | nil =>
    obtain rfl : [] = ds := Option.some.inj h
    exact ⟨rfl, fun d hd => absurd hd List.not_mem_nil, rfl⟩
  | cons c cs ih =>
    rw [List.mapM_cons] at h
    obtain ⟨d, hd, h⟩ := Option.bind_eq_some_iff.mp h
    obtain ⟨rest, hrest, h⟩ := Option.bind_eq_some_iff.mp h
    obtain rfl : d :: rest = ds := Option.some.inj h
    obtain ⟨hlt, rfl⟩ := digit_of_value? hd
    obtain ⟨rfl, hall, hones⟩ := ih hrest
    refine ⟨rfl, List.forall_mem_cons.mpr ⟨hlt, hall⟩, ?_⟩
    by_cases hzero : d = 0
    · subst hzero
      rw [List.takeWhile_cons_of_pos (by decide), List.takeWhile_cons_of_pos (by decide),
        List.length_cons, List.length_cons, hones]
    · have hone : ¬ (digit d == '1') = true := fun hone =>
        hzero (digit_eq_one ⟨d, hlt⟩ (eq_of_beq hone))
      rw [List.takeWhile_cons_of_neg (p := (· == '1')) hone,
        List.takeWhile_cons_of_neg (p := (· == 0)) (by simpa using hzero), List.length_nil,
        List.length_nil]

/-- **A byte string has one writing**: what is read from a text is written as this text. -/
theorem encode_of_decode? {cs : List Char} {bs : Bytes} (h : decode? cs = some bs) :
    encode bs = cs := by
  rw [decode?] at h
  obtain ⟨ds, hds, h⟩ := Option.bind_eq_some_iff.mp h
  obtain ⟨hcs, hlt, hones⟩ := digits_of_mapM_value? hds
  have hbs := Option.some.inj h
  rw [List.map_const', hones, ← valueIn] at hbs
  have hdigits := zeros_append_digitsIn (by omega) hlt
  generalize (ds.takeWhile (· == 0)).length = z at hbs hdigits
  generalize valueIn 58 ds = n at hbs hdigits
  have hrest : ∀ d ∈ digitsIn 256 n, (UInt8.ofNat d).toNat = d := fun d hd => by
    rw [UInt8.toNat_ofNat', Nat.mod_eq_of_lt (lt_of_mem_digitsIn (by omega) hd)]
  -- The bytes after the leading zeros are the digits of the value, so it is the value of the text.
  have hvalue : bs.toNat = n := by
    have hbytes : bs.map UInt8.toNat = List.replicate z 0 ++ digitsIn 256 n := by
      rw [← hbs, List.map_append, List.map_replicate, List.map_map]
      exact congrArg (_ ++ ·) ((List.map_congr_left hrest).trans (List.map_id' _))
    rw [toNat_eq_valueIn, hbytes, valueIn_zeros_append, valueIn_digitsIn (by omega)]
  have hzeros : (bs.takeWhile (· == 0)).length = z := by
    have hend : ∀ b ∈ ((digitsIn 256 n).map UInt8.ofNat).head?, (b == 0) = false := by
      intro b hb
      rw [List.head?_map] at hb
      obtain ⟨d, hd, rfl⟩ := Option.map_eq_some_iff.mp hb
      have hne := ne_zero_of_head?_digitsIn (by omega) hd
      refine beq_eq_false_iff_ne.mpr fun hzero => hne ?_
      rw [← hrest d (List.mem_of_head? hd), hzero]
      rfl
    have hfront : (List.replicate z (0 : UInt8)).takeWhile (· == 0) = List.replicate z 0 :=
      List.takeWhile_eq_self_iff.mpr fun b hb => beq_iff_eq.mpr (List.eq_of_mem_replicate hb)
    rw [← hbs, takeWhile_append_of_head? hend, hfront, List.length_replicate]
  rw [encode_eq, hzeros, hvalue, hdigits, hcs]

/-- **A byte string has one writing with its checksum.** -/
theorem decodeChecked?_eq_some_iff {cs : List Char} {bs : Bytes} :
    decodeChecked? cs = some bs ↔ encodeChecked bs = cs := by
  constructor
  · intro h
    rw [decodeChecked?] at h
    obtain ⟨whole, hwhole, h⟩ := Option.bind_eq_some_iff.mp h
    split at h
    · exact nomatch h
    · simp only at h
      split at h
      · next hsum =>
        obtain rfl := Option.some.inj h
        rw [encodeChecked, hsum, List.take_append_drop, encode_of_decode? hwhole]
      · exact nomatch h
  · rintro rfl
    exact decodeChecked?_encodeChecked bs

end WalletApi.Base58
