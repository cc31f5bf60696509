import Mathlib.Data.Int.Notation
import Mathlib.Data.List.TakeWhile
import WalletApi.Calendar.Timestamp
import WalletApi.Proofs.Lists
import WalletApi.Proofs.Results
import WalletApi.Proofs.Text.Digits

/-!
# Points in time are read as they are written

What is read from a text is always a point in time of the calendar, whatever offset the text has
(`WalletApi.Timestamp.isValid_of_ofText`), and every such point in time is read back from the text
that it is written as (`WalletApi.Timestamp.ofText_text`). The text fills the numbers of date and
time up to two digits, so that each ends where the next sign stands; the fraction of a second keeps
as many groups of three digits as it needs, and the digits that are not written are zeros.
-/

namespace WalletApi.Timestamp

/-- **The numbers make a point in time**: a date of the calendar and a time of day, with room for an
inserted second. -/
structure IsValid (t : Timestamp) : Prop where
  date : t.date.isValid = true
  hour : t.hour < 24
  minute : t.minute < 60
  second : t.second ≤ 60
  nano : t.nano < 1000000000

variable {cs rest : List Char} {n width : ℕ}

/-! ### Digits -/

/-- As many digits write a number below that power of ten. -/
theorem ofDigits_lt (h : ∀ c ∈ cs, c.isDigit = true) : ofDigits cs < 10 ^ cs.length := by
  have hlt := Decimal.foldl_lt h 0
  rwa [Nat.zero_add, Nat.one_mul] at hlt

theorem padded_eq (width n : ℕ) :
    padded width n = List.replicate (width - (Nat.toDigits 10 n).length) '0' ++
      Nat.toDigits 10 n := by
  rw [padded, Nat.toString_eq_ofList_toDigits, String.toList_ofList]

theorem isDigit_of_mem_padded (width n : ℕ) : ∀ c ∈ padded width n, c.isDigit = true := by
  intro c h
  rw [padded_eq] at h
  rcases List.mem_append.mp h with h | h
  · rw [List.eq_of_mem_replicate h]
    rfl
  · exact Decimal.isDigit_of_mem_toDigits h

theorem ofDigits_padded (width n : ℕ) : ofDigits (padded width n) = n := by
  rw [ofDigits, Decimal.foldl_eq_ofDigitChars, padded_eq, Nat.ofDigitChars_append,
    Nat.ofDigitChars_replicate_zero, Nat.mul_zero, Nat.ofDigitChars_ten_toDigits]

theorem length_padded (hpos : 0 < width) (h : n < 10 ^ width) :
    (padded width n).length = width := by
  have hle := (Nat.length_toDigits_le_iff (b := 10) (by decide) hpos).mpr h
  rw [padded_eq, List.length_append, List.length_replicate]
  omega

theorem padded_ne_nil (width n : ℕ) : padded width n ≠ [] := by
  rw [padded_eq]
  exact fun h => Nat.toDigits_ne_nil (List.append_eq_nil_iff.mp h).2

/-- Digits are read up to the end of the field or the first character that is none. -/
theorem digits_append (width : ℕ) (rest : List Char) (hdigits : ∀ c ∈ cs, c.isDigit = true)
    (hne : cs ≠ []) (hlength : cs.length ≤ width)
    (hend : cs.length = width ∨ ∀ c ∈ rest.head?, c.isDigit = false)
    (hlt : ofDigits cs < Nat.pow 2 63) : digits width (cs ++ rest) = .ok (ofDigits cs, rest) := by
  have hnone : ∀ c ∈ (rest.take (width - cs.length)).head?, c.isDigit = false := by
    intro c hc
    rw [List.head?_take] at hc
    split at hc
    · exact nomatch hc
    · next hroom => exact hend.elim (fun hfull => absurd (by omega) hroom) fun h => h c hc
  have hfound : ((cs ++ rest).take width).takeWhile Char.isDigit = cs := by
    rw [List.take_append, List.take_of_length_le hlength,
      takeWhile_append_of_head? hnone, List.takeWhile_eq_self_iff.mpr hdigits]
  rw [digits, hfound]
  simp only [if_neg hne, if_pos hlt, List.drop_left]

theorem isBlank_of_isDigit {c : Char} (h : c.isDigit = true) : Text.isBlank c = false := by
  have hrange : 48 ≤ c.toNat ∧ c.toNat ≤ 57 := Char.isDigit_iff_toNat.mp h
  simp only [Text.isBlank, Bool.or_eq_false_iff, Bool.and_eq_false_iff, decide_eq_false_iff_not,
    beq_eq_false_iff_ne]
  omega

theorem trimStart_append (hdigits : ∀ c ∈ cs, c.isDigit = true) (hne : cs ≠ [])
    (rest : List Char) : Text.trimStart (cs ++ rest) = cs ++ rest := by
  cases cs with
  | nil => exact absurd rfl hne
  | cons c cs =>
    exact List.dropWhile_cons_of_neg
      (Bool.not_eq_true _ ▸ isBlank_of_isDigit (hdigits c List.mem_cons_self))

/-! ### The parts of a text -/

/-- A number of two digits is read in its bounds. -/
theorem bounded_padded {low high : ℕ} (hlow : low ≤ n) (hhigh : n ≤ high) (hn : n < 100)
    (rest : List Char) : bounded low high (padded 2 n ++ rest) = .ok (n, rest) := by
  have hlength : (padded 2 n).length = 2 := length_padded (by decide) hn
  have hdigits := digits_append 2 rest (isDigit_of_mem_padded 2 n) (padded_ne_nil 2 n)
    (Nat.le_of_eq hlength) (.inl hlength)
    (by rw [ofDigits_padded]; exact Nat.lt_trans hn (by decide))
  rw [ofDigits_padded] at hdigits
  rw [bounded, trimStart_append (isDigit_of_mem_padded 2 n) (padded_ne_nil 2 n), hdigits,
    ok_bind]
  exact if_pos ⟨hlow, hhigh⟩

theorem sign_cons {c : Char} (hc : Text.isBlank c = false) (rest : List Char) :
    sign c (c :: rest) = .ok rest := by
  have htrim : Text.trimStart (c :: rest) = c :: rest :=
    List.dropWhile_cons_of_neg (Bool.not_eq_true _ ▸ hc)
  rw [sign, htrim]
  exact if_pos rfl

/-- A year is read in the range of thirty-two bits. -/
theorem bind_range {z : ℤ} (hlow : -0x80000000 ≤ z) (hhigh : z < 0x80000000) :
    (Except.ok (z, rest) >>= fun (n, cs) =>
      if -0x80000000 ≤ n ∧ n < 0x80000000 then .ok (n, cs) else .error .outOfRange : Reading _) =
      .ok (z, rest) := by
  rw [ok_bind]
  exact if_pos ⟨hlow, hhigh⟩

theorem year_of_digits (htrim : Text.trimStart cs = cs) (hhead : ∀ c ∈ cs.head?, c.isDigit = true)
    (hdigits : digits 4 cs = .ok (n, rest)) (hn : n < 0x80000000) :
    year cs = .ok ((n : ℤ), rest) := by
  rw [year]
  simp only [htrim]
  split
  · exact absurd (hhead '-' rfl) (by decide)
  · exact absurd (hhead '+' rfl) (by decide)
  · simp only [hdigits, Except.map]
    exact bind_range (by omega) (by omega)

theorem year_of_negative (hdigits : digits cs.length cs = .ok (n, rest)) (hn : n < 0x80000000) :
    year ('-' :: cs) = .ok (-(n : ℤ), rest) := by
  have htrim : Text.trimStart ('-' :: cs) = '-' :: cs := List.dropWhile_cons_of_neg (by decide)
  rw [year]
  simp only [htrim, hdigits, Except.map]
  exact bind_range (by omega) (by omega)

theorem year_of_positive (hdigits : digits cs.length cs = .ok (n, rest)) (hn : n < 0x80000000) :
    year ('+' :: cs) = .ok ((n : ℤ), rest) := by
  have htrim : Text.trimStart ('+' :: cs) = '+' :: cs := List.dropWhile_cons_of_neg (by decide)
  rw [year]
  simp only [htrim, hdigits, Except.map]
  exact bind_range (by omega) (by omega)

/-- The digits of a year, of which there may be more than four, end at the next sign. -/
theorem digits_year (hn : n < Nat.pow 2 63) (hlength : (padded 4 n).length ≤ width)
    (rest : List Char) : digits width (padded 4 n ++ '-' :: rest) = .ok (n, '-' :: rest) := by
  have hend : ∀ c ∈ ('-' :: rest).head?, c.isDigit = false := by
    rintro c hc
    obtain rfl := Option.some.inj hc
    rfl
  have hdigits := digits_append width ('-' :: rest) (isDigit_of_mem_padded 4 n)
    (padded_ne_nil 4 n) hlength (.inr hend) (by rwa [ofDigits_padded])
  rwa [ofDigits_padded] at hdigits

/-- **A year is read as it is written**, up to the sign that follows it. -/
theorem year_yearText {y : ℤ} (hlow : Date.minYear ≤ y) (hhigh : y ≤ Date.maxYear)
    (rest : List Char) : year (yearText y ++ '-' :: rest) = .ok (y, '-' :: rest) := by
  have hmin : -262143 ≤ y := hlow
  have hmax : y ≤ 262142 := hhigh
  have hlong : ∀ m, (padded 4 m).length ≤ (padded 4 m ++ '-' :: rest).length := fun m => by
    rw [List.length_append]
    exact Nat.le_add_right _ _
  have hbound : ∀ m, m < 1000000 → m < Nat.pow 2 63 := fun m hm => Nat.lt_trans hm (by decide)
  rw [yearText]
  split
  · next h =>
    have hlength : (padded 4 y.toNat).length = 4 :=
      length_padded (by decide) (show y.toNat < 10000 by omega)
    have hhead : ∀ c ∈ (padded 4 y.toNat ++ '-' :: rest).head?, c.isDigit = true := by
      intro c hc
      obtain ⟨d, ds, hds⟩ := List.exists_cons_of_ne_nil (padded_ne_nil 4 y.toNat)
      rw [hds, List.cons_append] at hc
      obtain rfl := Option.some.inj hc
      exact isDigit_of_mem_padded 4 _ _ (hds ▸ List.mem_cons_self)
    rw [year_of_digits (trimStart_append (isDigit_of_mem_padded 4 _) (padded_ne_nil 4 _) _)
      hhead (digits_year (hbound _ (by omega)) (Nat.le_of_eq hlength) rest) (by omega),
      Int.toNat_of_nonneg h.1]
  split
  · next hneg =>
    rw [List.cons_append, year_of_negative (digits_year (hbound _ (by omega)) (hlong _) rest)
      (by omega)]
    have habs : -(y.natAbs : ℤ) = y := by omega
    rw [habs]
  · next hneg =>
    rw [List.cons_append, year_of_positive (digits_year (hbound _ (by omega)) (hlong _) rest)
      (by omega)]
    have habs : (y.natAbs : ℤ) = y := by omega
    rw [habs]

/-- The fraction of a second with as many digits as are written. -/
theorem fraction_padded (hpos : 0 < width) (hwidth : width ≤ 9) (hn : n < 10 ^ width) :
    fraction ('.' :: (padded width n ++ ['Z'])) = .ok (n * Nat.pow 10 (9 - width), ['Z']) := by
  have hlength : (padded width n).length = width := length_padded hpos hn
  have hsmall : n < Nat.pow 2 63 :=
    Nat.lt_of_lt_of_le hn (Nat.le_trans (Nat.pow_le_pow_right (by decide) hwidth) (by decide))
  have hdigits := digits_append 9 ['Z'] (isDigit_of_mem_padded width n) (padded_ne_nil width n)
    (by omega) (.inr (by simp)) (by rwa [ofDigits_padded])
  rw [ofDigits_padded] at hdigits
  rw [fraction, hdigits]
  simp only [List.length_append, hlength, Nat.add_sub_cancel]
  rfl

theorem fraction_fractionText (h : n < 1000000000) :
    fraction (fractionText n ++ ['Z']) = .ok (n, ['Z']) := by
  rw [fractionText]
  split
  · next hzero =>
    subst hzero
    rfl
  split
  · next hmod =>
    have hn : n / 1000000 * Nat.pow 10 (9 - 3) = n :=
      Nat.div_mul_cancel (Nat.dvd_of_mod_eq_zero hmod)
    rw [List.cons_append, fraction_padded (by decide) (by decide)
      (show n / 1000000 < 1000 by omega), hn]
  split
  · next hmod =>
    have hn : n / 1000 * Nat.pow 10 (9 - 6) = n :=
      Nat.div_mul_cancel (Nat.dvd_of_mod_eq_zero hmod)
    rw [List.cons_append, fraction_padded (by decide) (by decide)
      (show n / 1000 < 1000000 by omega), hn]
  · rw [List.cons_append, fraction_padded (by decide) (by decide) h]
    exact congrArg (fun m => Except.ok (m, ['Z'])) (Nat.mul_one n)

theorem offset_z : offset (Text.trimStart ['Z']) = .ok (0, []) := rfl

/-- A point in universal time stays as it is. -/
theorem atOffset_zero {t : Timestamp} (h : t.IsValid) : t.atOffset 0 = .ok t := by
  have hhour := h.hour
  have hminute := h.minute
  have hlow : ¬ ((t.hour : ℤ) * 60 + t.minute - 0 < 0) := by omega
  have hhigh : ¬ (1440 ≤ (t.hour : ℤ) * 60 + t.minute - 0) := by omega
  have hwall : (((t.hour : ℤ) * 60 + t.minute - 0) % 1440).toNat = t.hour * 60 + t.minute := by
    omega
  have hdiv : (t.hour * 60 + t.minute) / 60 = t.hour := by omega
  have hmod : (t.hour * 60 + t.minute) % 60 = t.minute := by omega
  rw [atOffset]
  simp only [if_neg hlow, if_neg hhigh, if_pos h.date, hwall, hdiv, hmod]

theorem daysInMonth_le (y : ℤ) (m : ℕ) : Date.daysInMonth y m ≤ 31 := by
  rw [Date.daysInMonth]
  split
  · split <;> decide
  · split <;> decide

/-- **A point in time is read as it is written.** -/
theorem ofText_text {t : Timestamp} (h : t.IsValid) : ofText t.text = .ok t := by
  obtain ⟨⟨y, m, d⟩, hour, minute, second, nano⟩ := t
  have hdate := h.date
  have hhour : hour < 24 := h.hour
  have hminute : minute < 60 := h.minute
  have hsecond : second ≤ 60 := h.second
  have hnano : nano < 1000000000 := h.nano
  simp only [Date.isValid, Bool.and_eq_true, decide_eq_true_eq] at hdate
  obtain ⟨⟨⟨⟨⟨hlow, hhigh⟩, hm⟩, hm'⟩, hd⟩, hd'⟩ := hdate
  have hd31 : d ≤ 31 := Nat.le_trans hd' (daysInMonth_le y m)
  have hend : ∀ rest, dateEnd ('T' :: rest) = .ok rest := fun rest => rfl
  rw [ofText, text, String.toList_ofList]
  simp only [List.append_assoc, List.cons_append]
  -- Each part is read off the front of the text, and leaves the rest for the next one.
  rw [year_yearText hlow hhigh, ok_bind]
  simp only [sign_cons (c := '-') rfl, ok_bind, bounded_padded hm hm' (by omega : m < 100),
    bounded_padded hd hd31 (by omega : d < 100), hend,
    bounded_padded (Nat.zero_le hour) (by omega : hour ≤ 23) (by omega),
    sign_cons (c := ':') rfl,
    bounded_padded (Nat.zero_le minute) (by omega : minute ≤ 59) (by omega),
    bounded_padded (Nat.zero_le second) hsecond (by omega), fraction_fractionText hnano, offset_z]
  have hzone : ¬ (Text.trimStart [] ≠ []) := fun hne => hne rfl
  have hvalid : Date.isValid ⟨y, m, d⟩ = true ∧ Int.natAbs 0 < 1440 := ⟨h.date, by decide⟩
  rw [if_neg hzone, if_pos hvalid, atOffset_zero h]

/-! ### What is read -/

theorem digits_eq_ok {n : ℕ} (h : digits width cs = .ok (n, rest)) :
    ∃ k ≤ width, k ≤ cs.length ∧ n < 10 ^ k ∧ rest = cs.drop k := by
  have hall : ∀ c ∈ (cs.take width).takeWhile Char.isDigit, c.isDigit = true := fun c hc =>
    List.all_eq_true.mp List.all_takeWhile c hc
  have hlength : ((cs.take width).takeWhile Char.isDigit).length ≤ min width cs.length := by
    rw [← List.length_take]
    exact (List.takeWhile_prefix _).length_le
  rw [digits] at h
  split at h
  · exact nomatch h
  split at h
  · obtain ⟨rfl, rfl⟩ := Prod.mk.inj (Except.ok.inj h)
    exact ⟨_, by omega, by omega, ofDigits_lt hall, rfl⟩
  · exact nomatch h

theorem bounded_eq_ok {low high : ℕ} (h : bounded low high cs = .ok (n, rest)) :
    low ≤ n ∧ n ≤ high := by
  rw [bounded] at h
  obtain ⟨⟨m, after⟩, -, hm⟩ := bind_eq_ok.mp h
  obtain ⟨hrange, heq⟩ := ite_eq_ok.mp hm
  obtain ⟨rfl, -⟩ := Prod.mk.inj heq
  exact hrange

theorem fraction_lt (h : fraction cs = .ok (n, rest)) : n < 1000000000 := by
  rw [fraction.eq_def] at h
  split at h
  · next tail =>
    split at h
    · exact nomatch h
    · next m after hdigits =>
      obtain ⟨k, hk, hlength, hm, rfl⟩ := digits_eq_ok hdigits
      obtain ⟨rfl, -⟩ := Prod.mk.inj (Except.ok.inj h)
      have hscale : tail.length - (tail.drop k).length = k := by
        rw [List.length_drop]
        omega
      rw [hscale]
      calc m * Nat.pow 10 (9 - k) < 10 ^ k * 10 ^ (9 - k) :=
            Nat.mul_lt_mul_of_pos_right hm (Nat.pow_pos (by decide))
        _ = 10 ^ 9 := by rw [← Nat.pow_add, Nat.add_sub_cancel' hk]
  · obtain ⟨rfl, -⟩ := Prod.mk.inj (Except.ok.inj h)
    decide

/-- Bringing a point in time to universal time makes it one of the calendar. -/
theorem atOffset_eq_ok {t u : Timestamp} {minutes : ℤ} (h : t.atOffset minutes = .ok u)
    (hsecond : t.second ≤ 60) (hnano : t.nano < 1000000000) : u.IsValid := by
  rw [atOffset] at h
  obtain ⟨hdate, rfl⟩ := ite_eq_ok.mp h
  exact ⟨hdate, by simp only; omega, by simp only; omega, hsecond, hnano⟩

/-- **What is read from a text is a point in time of the calendar.** -/
theorem isValid_of_ofText {s : String} {t : Timestamp} (h : ofText s = .ok t) : t.IsValid := by
  rw [ofText] at h
  obtain ⟨⟨y, cs⟩, -, h⟩ := bind_eq_ok.mp h
  obtain ⟨cs, -, h⟩ := bind_eq_ok.mp h
  obtain ⟨⟨month, cs⟩, -, h⟩ := bind_eq_ok.mp h
  obtain ⟨cs, -, h⟩ := bind_eq_ok.mp h
  obtain ⟨⟨day, cs⟩, -, h⟩ := bind_eq_ok.mp h
  obtain ⟨cs, -, h⟩ := bind_eq_ok.mp h
  obtain ⟨⟨hour, cs⟩, -, h⟩ := bind_eq_ok.mp h
  obtain ⟨cs, -, h⟩ := bind_eq_ok.mp h
  obtain ⟨⟨minute, cs⟩, -, h⟩ := bind_eq_ok.mp h
  obtain ⟨cs, -, h⟩ := bind_eq_ok.mp h
  obtain ⟨⟨second, cs⟩, hsecond, h⟩ := bind_eq_ok.mp h
  obtain ⟨⟨nano, cs⟩, hnano, h⟩ := bind_eq_ok.mp h
  obtain ⟨⟨minutes, cs⟩, -, h⟩ := bind_eq_ok.mp h
  change (if Text.trimStart cs ≠ [] then _ else if _ then atOffset _ minutes else _) = _ at h
  split at h
  · exact nomatch h
  split at h
  · exact atOffset_eq_ok h (bounded_eq_ok hsecond).2 (fraction_lt hnano)
  · exact nomatch h

end WalletApi.Timestamp
