import Mathlib.Algebra.Group.Nat.Defs
import Mathlib.Data.List.Basic
import WalletApi.Text.Utf8

/-!
# The order of texts and that of their bytes

Texts are ordered by their characters, and the bytes of a lower text are lower
(`WalletApi.Utf8.encode_lt`). The first byte of a character tells how many bytes it has, and more
bytes come with higher first bytes; among characters of as many bytes, the bytes are the digits of
the character, highest first. So two characters are told apart by a byte, whatever follows them
(`WalletApi.Utf8.encodeChar_append_lt`). The bytes of ASCII stand for its characters and nothing
else (`WalletApi.Utf8.encode_of_forall_lt`, `WalletApi.Utf8.le_of_mem_encodeChar`).
-/

namespace WalletApi.Utf8

/-! ### Bytes in a row -/

theorem cons_lt_of_lt {m n : ℕ} (h : m < n) (hn : n < 0x100) (s t : Bytes) :
    UInt8.ofNat m :: s < UInt8.ofNat n :: t := by
  refine List.cons_lt_cons_iff.mpr (.inl (UInt8.lt_iff_toNat_lt.mpr ?_))
  rwa [UInt8.toNat_ofNat_of_lt' (Nat.lt_trans h hn), UInt8.toNat_ofNat_of_lt' hn]

theorem cons_lt_of_eq {m n : ℕ} (h : m = n) {s t : Bytes} (hst : s < t) :
    UInt8.ofNat m :: s < UInt8.ofNat n :: t :=
  List.cons_lt_cons_iff.mpr (.inr ⟨congrArg UInt8.ofNat h, hst⟩)

/-- The bytes of a character after the first one: its last digits to the base of 64. -/
def continued : ℕ → ℕ → Bytes
  | 0, _ => []
  | k + 1, n => UInt8.ofNat (n / 0x40 ^ k % 0x40 + 0x80) :: continued k n

/-- Numbers with the same higher digits are told apart by the last ones. -/
theorem continued_append_lt {k m n : ℕ} (h : m < n) (hsame : m / 0x40 ^ k = n / 0x40 ^ k)
    (s t : Bytes) : continued k m ++ s < continued k n ++ t := by
  induction k with
  | zero => omega
  | succ k ih =>
    rw [Nat.pow_succ, ← Nat.div_div_eq_div_mul, ← Nat.div_div_eq_div_mul] at hsame
    have hle : m / 0x40 ^ k ≤ n / 0x40 ^ k := Nat.div_le_div_right (Nat.le_of_lt h)
    rcases Nat.lt_or_eq_of_le hle with hlt | heq
    · exact cons_lt_of_lt (by omega) (by omega) _ _
    · exact cons_lt_of_eq (by rw [heq]) (ih heq)

/-- Numbers are told apart by a leading byte, or by what continues it. -/
theorem leading_append_lt {k lead m n : ℕ} (h : m < n) (hn : n / 0x40 ^ k + lead < 0x100)
    (s t : Bytes) : UInt8.ofNat (m / 0x40 ^ k + lead) :: (continued k m ++ s) <
      UInt8.ofNat (n / 0x40 ^ k + lead) :: (continued k n ++ t) := by
  have hle : m / 0x40 ^ k ≤ n / 0x40 ^ k := Nat.div_le_div_right (Nat.le_of_lt h)
  rcases Nat.lt_or_eq_of_le hle with hlt | heq
  · exact cons_lt_of_lt (by omega) hn _ _
  · exact cons_lt_of_eq (by rw [heq]) (continued_append_lt h heq s t)

/-! ### One character -/

/-- The bytes of a character, by their number. -/
theorem encodeChar_cases (c : Char) :
    c.toNat ≤ 0x7f ∧ String.utf8EncodeChar c =
      UInt8.ofNat (c.toNat / 0x40 ^ 0 + 0) :: continued 0 c.toNat ∨
    (0x7f < c.toNat ∧ c.toNat ≤ 0x7ff) ∧ String.utf8EncodeChar c =
      UInt8.ofNat (c.toNat / 0x40 ^ 1 + 0xc0) :: continued 1 c.toNat ∨
    (0x7ff < c.toNat ∧ c.toNat ≤ 0xffff) ∧ String.utf8EncodeChar c =
      UInt8.ofNat (c.toNat / 0x40 ^ 2 + 0xe0) :: continued 2 c.toNat ∨
    (0xffff < c.toNat ∧ c.toNat < 0x110000) ∧ String.utf8EncodeChar c =
      UInt8.ofNat (c.toNat / 0x40 ^ 3 + 0xf0) :: continued 3 c.toNat := by
  have hvalid : c.toNat < 0x110000 := by
    rcases c.valid with h | h
    · exact Nat.lt_trans h (by decide)
    · exact h.2
  have hval : c.val.toNat = c.toNat := rfl
  simp only [String.utf8EncodeChar, hval, continued, Nat.pow_zero, Nat.div_one, Nat.pow_one,
    Nat.add_zero]
  split
  · next h => exact .inl ⟨h, rfl⟩
  · split
    · next h h' =>
      rw [Nat.mod_eq_of_lt (by omega : c.toNat / 0x40 < 0x20)]
      exact .inr (.inl ⟨⟨by omega, h'⟩, rfl⟩)
    · split
      · next h h' =>
        rw [Nat.mod_eq_of_lt (by omega : c.toNat / 0x1000 < 0x10)]
        exact .inr (.inr (.inl ⟨⟨by omega, h'⟩, rfl⟩))
      · next h =>
        rw [Nat.mod_eq_of_lt (by omega : c.toNat / 0x40000 < 0x8)]
        exact .inr (.inr (.inr ⟨⟨by omega, hvalid⟩, rfl⟩))

/-- A character of ASCII is one byte. -/
theorem encodeChar_of_lt {c : Char} (h : c.toNat < 0x80) :
    String.utf8EncodeChar c = [UInt8.ofNat c.toNat] := by
  rcases encodeChar_cases c with ⟨-, hc⟩ | ⟨hlow, -⟩ | ⟨hlow, -⟩ | ⟨hlow, -⟩
  · rw [hc, Nat.pow_zero, Nat.div_one, Nat.add_zero]
    rfl
  · omega
  · omega
  · omega

/-- A text of ASCII characters has their numbers as its bytes. -/
theorem encode_of_forall_lt {cs : List Char} (h : ∀ c ∈ cs, c.toNat < 0x80) :
    encode cs = cs.map fun c => UInt8.ofNat c.toNat := by
  induction cs with
  | nil => rfl
  | cons c cs ih =>
    rw [encode_cons, encodeChar_of_lt (h c List.mem_cons_self),
      ih fun d hd => h d (List.mem_cons_of_mem c hd), List.map_cons, List.singleton_append]

theorem le_of_mem_continued {k n : ℕ} {b : UInt8} (hb : b ∈ continued k n) : 0x80 ≤ b.toNat := by
  induction k with
  | zero => exact nomatch hb
  | succ k ih =>
    rcases List.mem_cons.mp hb with rfl | hb
    · rw [UInt8.toNat_ofNat']
      omega
    · exact ih hb

/-- No byte of a character outside ASCII is in the range of ASCII. -/
theorem le_of_mem_encodeChar {c : Char} (h : 0x80 ≤ c.toNat) {b : UInt8}
    (hb : b ∈ String.utf8EncodeChar c) : 0x80 ≤ b.toNat := by
  rcases encodeChar_cases c with ⟨hlow, -⟩ | ⟨hc, hbytes⟩ | ⟨hc, hbytes⟩ | ⟨hc, hbytes⟩
  · omega
  all_goals
    rw [hbytes] at hb
    rcases List.mem_cons.mp hb with rfl | hb
    · rw [UInt8.toNat_ofNat']
      omega
    · exact le_of_mem_continued hb

/-- **A lower character has lower bytes**, whatever follows. -/
theorem encodeChar_append_lt {c d : Char} (h : c < d) (s t : Bytes) :
    String.utf8EncodeChar c ++ s < String.utf8EncodeChar d ++ t := by
  have hlt : c.toNat < d.toNat := UInt32.lt_iff_toNat_lt.mp h
  have hc := encodeChar_cases c
  have hd := encodeChar_cases d
  generalize c.toNat = m at hlt hc
  generalize d.toNat = n at hlt hd
  rcases hc with ⟨hm, hc⟩ | ⟨hm, hc⟩ | ⟨hm, hc⟩ | ⟨hm, hc⟩ <;>
    rcases hd with ⟨hn, hd⟩ | ⟨hn, hd⟩ | ⟨hn, hd⟩ | ⟨hn, hd⟩ <;> rw [hc, hd]
  -- A lower character has no more bytes, and if it has less, then a lower first one.
  · exact leading_append_lt hlt (by omega) s t
  · exact cons_lt_of_lt (by omega) (by omega) _ _
  · exact cons_lt_of_lt (by omega) (by omega) _ _
  · exact cons_lt_of_lt (by omega) (by omega) _ _
  · omega
  · exact leading_append_lt hlt (by omega) s t
  · exact cons_lt_of_lt (by omega) (by omega) _ _
  · exact cons_lt_of_lt (by omega) (by omega) _ _
  · omega
  · omega
  · exact leading_append_lt hlt (by omega) s t
  · exact cons_lt_of_lt (by omega) (by omega) _ _
  · omega
  · omega
  · omega
  · exact leading_append_lt hlt (by omega) s t

/-! ### Texts -/

/-- **The bytes of a lower text are lower.** -/
theorem encode_lt {cs ds : List Char} (h : cs < ds) : encode cs < encode ds := by
  induction cs generalizing ds with
  | nil =>
    cases ds with
    | nil => exact absurd h (List.lt_irrefl _)
    | cons d ds =>
      cases hbytes : encode (d :: ds) with
      | nil =>
        rw [encode_cons, List.append_eq_nil_iff] at hbytes
        exact absurd hbytes.1 String.utf8EncodeChar_ne_nil
      | cons b bs => exact List.nil_lt_cons b bs
  | cons c cs ih =>
    cases ds with
    | nil => exact absurd h (List.not_lt_nil _)
    | cons d ds =>
      rw [encode_cons, encode_cons]
      rcases List.cons_lt_cons_iff.mp h with hlt | ⟨rfl, hlt⟩
      · exact encodeChar_append_lt hlt _ _
      · exact List.append_left_lt (ih hlt)

end WalletApi.Utf8
