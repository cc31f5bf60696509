import WalletApi.Proofs.Key.Nonce
import WalletApi.Proofs.Results
import WalletApi.Proofs.Text.Base58
import WalletApi.Proofs.Text.Utf8Order
import WalletApi.Text.Blank
import WalletApi.Text.Hex

/-!
# Which texts are hexadecimal

A text is read byte by byte, so what is read are the bytes of its characters. Only characters of
ASCII are digits, and no byte of another character is one, so a text that is read consists of digits
(`WalletApi.Hex.isSome_value?_of_encode`). Two digits make a byte, and what they make together has
the number that the digits write in base sixteen: `WalletApi.Hex.decode_eq_ok_iff` says which texts
are read, and as what.
-/

namespace WalletApi.Hex

/-! ### Digits as bytes -/

/-- Digits stand between the digit zero and the small letter f. -/
theorem bounds_of_value? {c : Char} {n : ℕ} (h : value? c = some n) :
    48 ≤ c.toNat ∧ c.toNat ≤ 102 := by
  have hle : ∀ {d e : Char}, d ≤ e → d.toNat ≤ e.toNat := fun h => h
  rw [value?] at h
  split at h
  · next hc => exact ⟨hle hc.1, (hle hc.2).trans (by decide)⟩
  · split at h
    · next hc => exact ⟨le_trans (by decide) (hle hc.1), hle hc.2⟩
    · split at h
      · next hc => exact ⟨le_trans (by decide) (hle hc.1), (hle hc.2).trans (by decide)⟩
      · cases h

theorem toNat_lt_of_value? {c : Char} {n : ℕ} (h : value? c = some n) : c.toNat < 0x80 :=
  lt_of_le_of_lt (bounds_of_value? h).2 (by decide)

/-- No digit is blank. -/
theorem isBlank_of_value? {c : Char} (h : (value? c).isSome = true) : Text.isBlank c = false := by
  obtain ⟨n, hn⟩ := Option.isSome_iff_exists.mp h
  obtain ⟨hlow, hhigh⟩ := bounds_of_value? hn
  simp only [Text.isBlank, Bool.or_eq_false_iff, Bool.and_eq_false_iff, decide_eq_false_iff_not,
    beq_eq_false_iff_ne]
  omega

theorem byteValue?_of_lt {c : Char} (h : c.toNat < 0x80) :
    byteValue? (UInt8.ofNat c.toNat) = value? c := by
  rw [byteValue?, UInt8.toNat_ofNat', Nat.mod_eq_of_lt (by omega), Char.ofNat_toNat]

theorem byteValue?_of_le {b : UInt8} (h : 0x80 ≤ b.toNat) : byteValue? b = none := by
  have hb := b.toNat_lt
  have hvalid : b.toNat.isValidChar := .inl (by omega)
  have hnumber : (Char.ofNat b.toNat).toNat = b.toNat := by
    rw [Char.ofNat, dif_pos hvalid]
    rfl
  cases hvalue : byteValue? b with
  | none => rfl
  | some n =>
    have hlt := toNat_lt_of_value? hvalue
    omega

/-- A text of which all bytes are digits consists of digits. -/
theorem isSome_value?_of_encode {cs : List Char}
    (h : ∀ b ∈ Utf8.encode cs, (byteValue? b).isSome = true) :
    ∀ c ∈ cs, (value? c).isSome = true := by
  intro c hc
  have hbytes : ∀ b ∈ String.utf8EncodeChar c, (byteValue? b).isSome = true := fun b hb =>
    h b (List.mem_flatMap.mpr ⟨c, hc, hb⟩)
  by_cases hlt : c.toNat < 0x80
  · rw [← byteValue?_of_lt hlt]
    exact hbytes _ (by rw [Utf8.encodeChar_of_lt hlt]; exact List.mem_singleton_self _)
  · -- The first byte of a character beyond ASCII is beyond ASCII too.
    obtain ⟨b, hb⟩ := List.exists_mem_of_ne_nil _ (String.utf8EncodeChar_ne_nil (c := c))
    have hnone := byteValue?_of_le (Utf8.le_of_mem_encodeChar (by omega) hb)
    have hsome := hbytes b hb
    rw [hnone] at hsome
    exact nomatch hsome

/-- A text of digits has as many bytes as digits. -/
theorem length_encode_of_digits {cs : List Char} (h : ∀ c ∈ cs, (value? c).isSome = true) :
    (Utf8.encode cs).length = cs.length := by
  have hascii : ∀ c ∈ cs, c.toNat < 0x80 := fun c hc => by
    obtain ⟨n, hn⟩ := Option.isSome_iff_exists.mp (h c hc)
    exact toNat_lt_of_value? hn
  rw [Utf8.encode_of_forall_lt hascii, List.length_map]

/-! ### Reading -/

theorem isSome_of_decodeFrom {position : ℕ} {text bs : Bytes}
    (h : decodeFrom position text = .ok bs) : ∀ b ∈ text, (byteValue? b).isSome = true := by
  fun_induction decodeFrom position text generalizing bs with
  | case1 => exact fun b hb => absurd hb List.not_mem_nil
  | case2 => exact nomatch h
  | case3 => exact nomatch h
  | case4 => exact nomatch h
  | case5 position a b rest high hhigh low hlow ih =>
    obtain ⟨tail, htail, -⟩ := map_eq_ok.mp h
    rw [List.forall_mem_cons, List.forall_mem_cons, hhigh, hlow]
    exact ⟨rfl, rfl, ih htail⟩

/-- **Pairs of digits are read as bytes**, and the number stays what the digits write, whatever
number has been read before them. -/
theorem decodeFrom_of_digits {cs : List Char} {n : ℕ} (h : ∀ c ∈ cs, (value? c).isSome = true)
    (hlen : cs.length = 2 * n) (position start : ℕ) :
    ∃ bs, decodeFrom position (Utf8.encode cs) = .ok bs ∧ bs.length = n ∧
      bs.foldl (fun n b => n * 256 + b.toNat) start =
        cs.foldl (fun n c => n * 16 + number c) start := by
  induction n generalizing cs position start with
  | zero =>
    rw [List.length_eq_zero_iff.mp hlen]
    exact ⟨[], rfl, rfl, rfl⟩
  | succ n ih =>
    match cs, hlen with
    | a :: b :: rest, hlen =>
      rw [List.forall_mem_cons, List.forall_mem_cons] at h
      obtain ⟨high, hhigh⟩ := Option.isSome_iff_exists.mp h.1
      obtain ⟨low, hlow⟩ := Option.isSome_iff_exists.mp h.2.1
      have hhigh' : number a = high := by rw [number, hhigh, Option.getD_some]
      have hlow' : number b = low := by rw [number, hlow, Option.getD_some]
      have hbounds := And.intro (hhigh' ▸ number_lt a) (hlow' ▸ number_lt b)
      obtain ⟨bs, hbs, hcount, hvalue⟩ := ih h.2.2 (by simp only [List.length_cons] at hlen; omega)
        (position + 2) ((start * 16 + high) * 16 + low)
      have hbyte : (UInt8.ofNat (16 * high + low)).toNat = 16 * high + low := by
        rw [UInt8.toNat_ofNat', Nat.mod_eq_of_lt (by omega)]
      have hstep : start * 256 + (16 * high + low) = (start * 16 + high) * 16 + low := by omega
      refine ⟨UInt8.ofNat (16 * high + low) :: bs, ?_, by rw [List.length_cons, hcount], ?_⟩
      · have ha := toNat_lt_of_value? hhigh
        have hb := toNat_lt_of_value? hlow
        rw [Utf8.encode_cons, Utf8.encode_cons, Utf8.encodeChar_of_lt ha, Utf8.encodeChar_of_lt hb,
          List.singleton_append, List.singleton_append, decodeFrom]
        simp only [byteValue?_of_lt ha, byteValue?_of_lt hb, hhigh, hlow, hbs]
        rfl
      · rw [List.foldl_cons, List.foldl_cons, List.foldl_cons, hbyte, hhigh', hlow', hstep, hvalue]

/-- **The texts that are read as a byte string**: two digits for each byte, which write the number
of the byte string. -/
theorem decode_eq_ok_iff {cs : List Char} {bs : Bytes} :
    decode (Utf8.encode cs) = .ok bs ↔
      (∀ c ∈ cs, (value? c).isSome = true) ∧ cs.length = 2 * bs.length ∧
        Base58.valueIn 16 (cs.map number) = bs.toNat := by
  have hread : (∀ c ∈ cs, (value? c).isSome = true) → ∀ n, cs.length = 2 * n →
      ∃ bs, decode (Utf8.encode cs) = .ok bs ∧ bs.length = n ∧
        Base58.valueIn 16 (cs.map number) = bs.toNat := by
    intro hdigits n hlen
    obtain ⟨bs, hbs, hcount, hvalue⟩ := decodeFrom_of_digits hdigits hlen 0 0
    rw [decode, length_encode_of_digits hdigits, if_neg (by omega), hbs]
    exact ⟨bs, rfl, hcount, by rw [Base58.valueIn, List.foldl_map, ← hvalue, Bytes.toNat]⟩
  constructor
  · intro h
    have htext : ¬ (Utf8.encode cs).length % 2 = 1 ∧ decodeFrom 0 (Utf8.encode cs) = .ok bs := by
      rw [decode] at h
      split at h
      · cases h
      · next heven => exact ⟨heven, h⟩
    have hdigits := isSome_value?_of_encode (isSome_of_decodeFrom htext.2)
    rw [length_encode_of_digits hdigits] at htext
    obtain ⟨bs', hbs', hcount, hvalue⟩ := hread hdigits (cs.length / 2) (by omega)
    obtain rfl := Except.ok.inj (h.symm.trans hbs')
    exact ⟨hdigits, by omega, hvalue⟩
  · rintro ⟨hdigits, hlen, hvalue⟩
    obtain ⟨bs', hbs', hcount, hvalue'⟩ := hread hdigits bs.length hlen
    rw [hbs', Bytes.eq_of_toNat_eq hcount (hvalue'.symm.trans hvalue)]

end WalletApi.Hex
