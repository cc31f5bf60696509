import Mathlib.Data.List.Basic
import WalletApi.Url.Percent

/-!
# Percent signs that are kept

A path keeps the percent signs of the text that it comes from. So encoding a part of a path does not
protect it: what looks like an encoded byte is decoded, whoever has written it, and decoding gives
the same before and after the encoding (`WalletApi.Percent.decode_encode_of_kept`). Decoding never
makes a text longer (`WalletApi.Percent.length_decode_le`), so a text that decodes to the bytes of
another one is no shorter than that.
-/

namespace WalletApi.Percent

/-! ### Characters -/

/-- What holds of the first characters, one by one, holds of every ASCII character. -/
theorem forall_ascii {P : Char → Prop} (h : ∀ n : Fin 0x80, P (Char.ofNat n.val)) {c : Char}
    (hc : c.toNat < 0x80) : P c := by
  have hP := h ⟨c.toNat, hc⟩
  rwa [Char.ofNat_toNat] at hP

theorem toNat_lt_of_isAlpha {c : Char} (h : c.isAlpha = true) : c.toNat < 0x80 := by
  have hcase : (c.isUpper || c.isLower) = true := h
  rcases Bool.or_eq_true_iff.mp hcase with hupper | hlower
  · have hbounds : 'A'.val ≤ c.val ∧ c.val ≤ 'Z'.val := of_decide_eq_true hupper
    exact Nat.lt_of_le_of_lt (UInt32.le_iff_toNat_le.mp hbounds.2) (by decide)
  · have hbounds : (decide ('a'.val ≤ c.val) && decide (c.val ≤ 'z'.val)) = true := hlower
    have hle : c.val ≤ 'z'.val := of_decide_eq_true (Bool.and_eq_true_iff.mp hbounds).2
    exact Nat.lt_of_le_of_lt (UInt32.le_iff_toNat_le.mp hle) (by decide)

theorem toNat_lt_of_isAlphanum {c : Char} (h : c.isAlphanum = true) : c.toNat < 0x80 := by
  have hcase : (c.isAlpha || c.isDigit) = true := h
  rcases Bool.or_eq_true_iff.mp hcase with halpha | hdigit
  · exact toNat_lt_of_isAlpha halpha
  · have hbounds : (decide ('0'.val ≤ c.val) && decide (c.val ≤ '9'.val)) = true := hdigit
    have hle : c.val ≤ '9'.val := of_decide_eq_true (Bool.and_eq_true_iff.mp hbounds).2
    exact Nat.lt_of_le_of_lt (UInt32.le_iff_toNat_le.mp hle) (by decide)

theorem value?_percent : value? '%' = none := by decide

/-- A digit is an ASCII character. -/
theorem lt_of_value? {c : Char} {n : ℕ} (h : value? c = some n) : c.toNat < 0x80 := by
  have hnine : '9'.toNat = 57 := rfl
  have hf : 'f'.toNat = 102 := rfl
  have hF : 'F'.toNat = 70 := rfl
  rw [value?] at h
  split at h
  · next hc => have hle : c.toNat ≤ '9'.toNat := hc.2; omega
  · split at h
    · next hc => have hle : c.toNat ≤ 'f'.toNat := hc.2; omega
    · split at h
      · next hc => have hle : c.toNat ≤ 'F'.toNat := hc.2; omega
      · exact nomatch h

theorem encodeChar_of_kept {set : Char → Bool} {c : Char} (hascii : c.toNat < 0x80)
    (hset : set c = false) : encodeChar set c = [c] := by
  rw [encodeChar, if_pos (by simp [hascii, hset])]

/-- A character is kept, or its encoding begins with a percent sign. -/
theorem encodeChar_cases (set : Char → Bool) (c : Char) :
    encodeChar set c = [c] ∧ c.toNat < 0x80 ∧ set c = false ∨
      encodeChar set c = (String.utf8EncodeChar c).flatMap byte ∧
        ∃ rest, encodeChar set c = '%' :: rest := by
  rw [encodeChar]
  split
  · next h =>
    rw [Bool.and_eq_true, decide_eq_true_eq, Bool.not_eq_true'] at h
    exact .inl ⟨rfl, h.1, h.2⟩
  · refine .inr ⟨rfl, ?_⟩
    cases hbytes : String.utf8EncodeChar c with
    | nil =>
      have hpos := c.utf8Size_pos
      rw [← String.length_utf8EncodeChar, hbytes] at hpos
      exact absurd hpos (by decide)
    | cons b bs => exact ⟨_, List.flatMap_cons⟩

theorem encode_cons (set : Char → Bool) (c : Char) (cs : List Char) :
    encode set (c :: cs) = encodeChar set c ++ encode set cs := List.flatMap_cons

theorem encode_ne_nil (set : Char → Bool) {cs : List Char} (h : cs ≠ []) : encode set cs ≠ [] := by
  obtain ⟨c, rest, rfl⟩ := List.exists_cons_of_ne_nil h
  rw [encode_cons]
  refine List.append_ne_nil_of_left_ne_nil ?_ _
  rcases encodeChar_cases set c with ⟨hc, -, -⟩ | ⟨-, more, hc⟩
  · exact hc ▸ List.cons_ne_nil c []
  · exact hc ▸ List.cons_ne_nil '%' more

/-- A text that has nothing to encode is left as it is. -/
theorem encode_of_kept {set : Char → Bool} {cs : List Char}
    (h : ∀ c ∈ cs, c.toNat < 0x80 ∧ set c = false) : encode set cs = cs := by
  induction cs with
  | nil => rfl
  | cons c cs ih =>
    rw [List.forall_mem_cons] at h
    rw [encode_cons, encodeChar_of_kept h.1.1 h.1.2, ih h.2]
    rfl

/-- Encoded bytes are written in percent signs and digits. -/
theorem mem_bytes {bs : Bytes} {d : Char} (h : d ∈ bs.flatMap byte) :
    d = '%' ∨ ∃ n : Fin 16, d = digit n.val := by
  obtain ⟨b, -, hd⟩ := List.mem_flatMap.mp h
  have hb := b.toNat_lt
  rw [byte, List.mem_cons, List.mem_pair] at hd
  rcases hd with rfl | rfl | rfl
  · exact .inl rfl
  · exact .inr ⟨⟨b.toNat / 16, by omega⟩, rfl⟩
  · exact .inr ⟨⟨b.toNat % 16, by omega⟩, rfl⟩

/-- The characters of an encoded text are kept ones, percent signs and digits. -/
theorem mem_encode {set : Char → Bool} {cs : List Char} {d : Char} (h : d ∈ encode set cs) :
    d ∈ cs ∧ d.toNat < 0x80 ∧ set d = false ∨ d = '%' ∨ ∃ n : Fin 16, d = digit n.val := by
  obtain ⟨c, hc, hd⟩ := List.mem_flatMap.mp h
  rcases encodeChar_cases set c with ⟨hkept, hascii, hset⟩ | ⟨hbytes, -⟩
  · rw [hkept, List.mem_singleton] at hd
    subst hd
    exact .inl ⟨hc, hascii, hset⟩
  · rw [hbytes] at hd
    exact .inr (mem_bytes hd)

theorem digit_ne_slash : ∀ n : Fin 16, digit n.val ≠ '/' := by decide +kernel

theorem slash_notMem_encode {set : Char → Bool} {cs : List Char} (h : '/' ∉ cs) :
    '/' ∉ encode set cs := by
  intro hmem
  rcases mem_encode hmem with ⟨hcs, -⟩ | hpercent | ⟨n, hn⟩
  · exact h hcs
  · exact absurd hpercent (by decide)
  · exact digit_ne_slash n hn.symm

/-! ### Decoding -/

/-- A percent sign that no two digits follow stands for itself. -/
theorem decode_percent {cs : List Char}
    (h : ∀ a b rest, cs = a :: b :: rest → value? a = none ∨ value? b = none) :
    decode ('%' :: cs) = 0x25 :: decode cs := by
  match cs with
  | [] => rfl
  | [_] => rfl
  | a :: b :: rest =>
    rw [decode]
    rcases h a b rest rfl with ha | hb
    · rw [ha]
    · rw [hb]
      cases value? a <;> rfl

theorem decode_percent_digits {a b : Char} {m n : ℕ} (ha : value? a = some m)
    (hb : value? b = some n) (rest : List Char) :
    decode ('%' :: a :: b :: rest) = UInt8.ofNat (16 * m + n) :: decode rest := by
  rw [decode, ha, hb]

/-- **Decoding never makes a text longer.** -/
theorem length_decode_le (cs : List Char) : (decode cs).length ≤ (Utf8.encode cs).length := by
  have hone : ∀ c : Char, 1 ≤ (String.utf8EncodeChar c).length := fun c => by
    rw [String.length_utf8EncodeChar]
    exact c.utf8Size_pos
  have hpercent : (String.utf8EncodeChar '%').length = 1 := by decide
  fun_induction decode cs with
  | case1 a b rest high low hlow hhigh ih =>
    simp only [Utf8.encode_cons, List.length_append, List.length_cons, hpercent]
    have ha := hone a
    omega
  | case2 a b rest hno ih =>
    rw [Utf8.encode_cons, List.length_append, List.length_cons, hpercent]
    omega
  | case3 c rest hno ih =>
    rw [Utf8.encode_cons, List.length_append, List.length_append]
    omega
  | case4 => exact Nat.le_refl 0

/-! ### Decoding what was encoded -/

section Kept

variable {set : Char → Bool} (hdigit : ∀ c n, value? c = some n → set c = false)

include hdigit

theorem encode_digit_cons {c : Char} {n : ℕ} (hc : value? c = some n) (cs : List Char) :
    encode set (c :: cs) = c :: encode set cs := by
  rw [encode_cons, encodeChar_of_kept (lt_of_value? hc) (hdigit c n hc)]
  rfl

omit hdigit in
/-- A digit in front of what was encoded was there before. -/
theorem eq_cons_of_encode {a : Char} {n : ℕ} (ha : value? a = some n) {cs r : List Char}
    (h : encode set cs = a :: r) : ∃ t, cs = a :: t ∧ r = encode set t := by
  cases cs with
  | nil => exact nomatch h
  | cons c cs =>
    rw [encode_cons] at h
    rcases encodeChar_cases set c with ⟨hc, -, -⟩ | ⟨-, rest, hc⟩
    · rw [hc] at h
      obtain ⟨rfl, rfl⟩ := List.cons.inj h
      exact ⟨cs, rfl, rfl⟩
    · rw [hc] at h
      obtain ⟨rfl, -⟩ := List.cons.inj h
      rw [value?_percent] at ha
      exact nomatch ha

omit hdigit in
/-- Encoding puts no digits behind a percent sign that had none. -/
theorem decode_percent_encode {cs : List Char}
    (h : ∀ a b rest, cs = a :: b :: rest → value? a = none ∨ value? b = none) :
    decode ('%' :: encode set cs) = 0x25 :: decode (encode set cs) := by
  refine decode_percent fun a b rest heq => ?_
  cases ha : value? a with
  | none => exact .inl rfl
  | some m =>
    cases hb : value? b with
    | none => exact .inr rfl
    | some n =>
      obtain ⟨t, rfl, ht⟩ := eq_cons_of_encode ha heq
      obtain ⟨t', rfl, -⟩ := eq_cons_of_encode hb ht.symm
      rcases h a b t' rfl with hnone | hnone
      · exact nomatch ha.symm.trans hnone
      · exact nomatch hb.symm.trans hnone

/-- **Where percent signs are kept, decoding gives the same before and after the encoding.** -/
theorem decode_encode_of_kept (hpercent : set '%' = false) (cs : List Char) :
    decode (encode set cs) = decode cs := by
  have hsign : ∀ cs, encode set ('%' :: cs) = '%' :: encode set cs := fun cs => by
    rw [encode_cons, encodeChar_of_kept (by decide) hpercent]
    rfl
  fun_induction decode cs with
  | case1 a b rest high low hlow hhigh ih =>
    rw [hsign, encode_digit_cons hdigit hhigh, encode_digit_cons hdigit hlow,
      decode_percent_digits hhigh hlow, ih]
  | case2 a b rest hno ih =>
    have hnone : value? a = none ∨ value? b = none := by
      cases ha : value? a with
      | none => exact .inl rfl
      | some m =>
        cases hb : value? b with
        | none => exact .inr rfl
        | some n => exact absurd hb (hno m n ha)
    rw [hsign, decode_percent_encode, ih]
    intro a' b' rest' heq
    cases heq
    exact hnone
  | case3 c rest hno ih =>
    by_cases hc : c = '%'
    · -- Fewer than two characters follow this sign.
      subst hc
      have hshort : String.utf8EncodeChar '%' = [0x25] := by decide
      rw [hsign, decode_percent_encode fun a b rest' heq => absurd heq (hno a b rest' rfl), ih,
        hshort]
      rfl
    · rw [encode_cons]
      rcases encodeChar_cases set c with ⟨hkept, -, -⟩ | ⟨hbytes, -⟩
      · rw [hkept, List.singleton_append, decode_cons_of_ne hc, ih]
      · rw [hbytes, decode_bytes_append, ih]
  | case4 => rfl

end Kept

end WalletApi.Percent
