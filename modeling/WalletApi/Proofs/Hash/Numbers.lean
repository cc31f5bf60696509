import Mathlib.Data.List.GetD
import Mathlib.Data.Nat.Digits.Lemmas
import WalletApi.Hash.Hmac

/-!
# Digests evaluated on numbers

`Sha256.hash` and `Sha512.hash` stir fixed-width words, and the message schedule moves a list of
sixteen of them. Both are slow to evaluate in a proof: every operation on a word goes through its
bits, and each round looks through the list that the round before it has left. This file carries out
the same rounds on natural numbers, with the window of the schedule packed into a single number
whose digits are the sixteen words.

One description covers both functions (`WalletApi.HashDesign`): they differ in the size of a word,
in the constants, and in the amounts by which words are turned and shifted. That nothing else
changes is

* `WalletApi.Sha256.hash_eq` – the digest with words of four bytes,
* `WalletApi.Sha512.hash_eq` – and the one with words of eight.

A proof that evaluates a digest rewrites it with one of these first.
-/

namespace WalletApi

/-! ### Blocks -/

namespace Padding

/-- Cut into groups, a byte string that is made of whole groups leaves no shorter one. -/
theorem length_of_mem_groups {size : ℕ} {bs g : Bytes} (h : bs.length % size = 0)
    (hg : g ∈ groups size bs) : g.length = size := by
  induction bs using groups.induct size with
  | case1 bs hstop =>
    rw [groups, dif_pos hstop] at hg
    exact absurd hg List.not_mem_nil
  | case2 bs hgo ih =>
    rw [groups, dif_neg hgo] at hg
    have hpos : 0 < bs.length := List.length_pos_iff.mpr (not_or.mp hgo).1
    have hsize : size ≤ bs.length := Nat.le_of_dvd hpos (Nat.dvd_of_mod_eq_zero h)
    rcases List.mem_cons.mp hg with rfl | hg
    · rw [List.length_take, Nat.min_eq_left hsize]
    · exact ih (by rw [List.length_drop, ← Nat.mod_eq_sub_mod hsize, h]) hg

/-- A byte string that is made of `n` whole groups is cut into `n` groups. -/
theorem length_groups {size n : ℕ} (hsize : 0 < size) {bs : Bytes} (h : bs.length = n * size) :
    (groups size bs).length = n := by
  induction n generalizing bs with
  | zero =>
    rw [groups, dif_pos (.inl (List.length_eq_zero_iff.mp (by omega)))]
    rfl
  | succ n ih =>
    rw [Nat.succ_mul] at h
    have hne : bs ≠ [] := fun hnil => by
      rw [hnil, List.length_nil] at h
      omega
    rw [groups, dif_neg (not_or.mpr ⟨hne, hsize.ne'⟩), List.length_cons,
      ih (by rw [List.length_drop]; omega)]

end Padding

/-! ### Rounds on numbers -/

/-- The eight words that a message has stirred so far, as numbers. -/
structure WordState where
  a : ℕ
  b : ℕ
  c : ℕ
  d : ℕ
  e : ℕ
  f : ℕ
  g : ℕ
  h : ℕ

/-- **What tells one hash function from the other**: the bytes in a word, the state before the first
block, the constants of the rounds, and the three amounts by which words are turned, or turned and
then shifted, in each of four places. -/
structure HashDesign where
  size : ℕ
  start : WordState
  constants : List ℕ
  stirred : ℕ × ℕ × ℕ
  turned : ℕ × ℕ × ℕ
  early : ℕ × ℕ × ℕ
  late : ℕ × ℕ × ℕ

namespace HashDesign

variable (d : HashDesign)

/-- The number of words. -/
def base : ℕ := 256 ^ d.size

/-- A word turned to the right. -/
def rotate (x n : ℕ) : ℕ := (x >>> n) ||| ((x <<< (8 * d.size - n)) % d.base)

/-- A word turned by three amounts. -/
def turn (t : ℕ × ℕ × ℕ) (x : ℕ) : ℕ := d.rotate x t.1 ^^^ d.rotate x t.2.1 ^^^ d.rotate x t.2.2

/-- A word turned by two amounts and shifted by the third. -/
def shift (t : ℕ × ℕ × ℕ) (x : ℕ) : ℕ := d.rotate x t.1 ^^^ d.rotate x t.2.1 ^^^ (x >>> t.2.2)

/-- A word of the window. -/
def word (window i : ℕ) : ℕ := window / d.base ^ i % d.base

/-- The word that enters the window. -/
def nextWord (window : ℕ) : ℕ :=
  (d.word window 0 + d.shift d.early (d.word window 1) + d.word window 9 +
    d.shift d.late (d.word window 14)) % d.base

/-- The window moved by one word. -/
def moved (window : ℕ) : ℕ := window / d.base + d.base ^ 15 * d.nextWord window

/-- One round on the state. -/
def round (s : WordState) (k w : ℕ) : WordState :=
  let choice := (s.e &&& s.f) ^^^ ((d.base - 1 - s.e) &&& s.g)
  let t := s.h + d.turn d.stirred s.e + choice + k + w
  let majority := (s.a &&& s.b) ^^^ (s.a &&& s.c) ^^^ (s.b &&& s.c)
  ⟨(t + d.turn d.turned s.a + majority) % d.base, s.a, s.b, s.c, (s.d + t) % d.base, s.e, s.f, s.g⟩

/-- All rounds that the constants ask for. -/
def rounds : List ℕ → ℕ → WordState → WordState
  | [], _, s => s
  | k :: ks, window, s => rounds ks (d.moved window) (d.round s k (d.word window 0))

/-- A state added word by word to another. -/
def add (s t : WordState) : WordState :=
  ⟨(s.a + t.a) % d.base, (s.b + t.b) % d.base, (s.c + t.c) % d.base, (s.d + t.d) % d.base,
    (s.e + t.e) % d.base, (s.f + t.f) % d.base, (s.g + t.g) % d.base, (s.h + t.h) % d.base⟩

/-- The words of a block, packed into one number. -/
def pack (block : Bytes) : ℕ :=
  Nat.ofDigits d.base ((Padding.groups d.size block).map fun w => Bytes.toNat w % d.base)

/-- The state after one block of bytes. -/
def compress (s : WordState) (block : Bytes) : WordState :=
  d.add s (d.rounds d.constants (d.pack block) s)

/-- The words of a state, in order. -/
def words (s : WordState) : List ℕ := [s.a, s.b, s.c, s.d, s.e, s.f, s.g, s.h]

/-- The digest of a byte string. -/
def hash (message : Bytes) : Bytes :=
  (words ((Padding.groups (16 * d.size) (Padding.pad (16 * d.size) (2 * d.size) message)).foldl
    d.compress d.start)).flatMap (Bytes.ofNat d.size)

/-! ### The packed window -/

theorem pos_base : 0 < d.base := Nat.pow_pos (by decide)

section Window

variable {d} {ws : List ℕ} (h : ∀ w ∈ ws, w < d.base)

include h

/-- A word of the window is a digit of the number. -/
theorem word_ofDigits (i : ℕ) : d.word (Nat.ofDigits d.base ws) i = ws.getD i 0 := by
  have hhead : ∀ l : List ℕ, (∀ w ∈ l, w < d.base) →
      Nat.ofDigits d.base l % d.base = l.getD 0 0 := by
    intro l hl
    cases l with
    | nil => exact Nat.zero_mod _
    | cons w l =>
      rw [Nat.ofDigits_cons, Nat.add_mul_mod_self_left, List.getD_cons_zero]
      exact Nat.mod_eq_of_lt (hl w List.mem_cons_self)
  rw [word, Nat.ofDigits_div_pow_eq_ofDigits_drop i d.pos_base ws h,
    hhead _ fun w hw => h w (List.mem_of_mem_drop hw)]
  simp only [List.getD_eq_getElem?_getD, List.getElem?_drop, Nat.add_zero]

/-- Moving the window drops its first word and puts the next one behind the last. -/
theorem moved_ofDigits (hlen : ws.length = 16) : d.moved (Nat.ofDigits d.base ws) =
    Nat.ofDigits d.base (ws.drop 1 ++ [d.nextWord (Nat.ofDigits d.base ws)]) := by
  have hdrop := Nat.ofDigits_div_pow_eq_ofDigits_drop 1 d.pos_base ws h
  rw [Nat.pow_one] at hdrop
  rw [moved, hdrop, Nat.ofDigits_append, List.length_drop, hlen, Nat.ofDigits_singleton]

end Window

/-- **A hash function on words follows a design**: words and states have numbers, and what the
function makes of words and states is told by these. -/
structure Follows {W S : Type} (d : HashDesign) (toNat : W → ℕ) (numbers : S → WordState)
    (ofNat : ℕ → W) (nextWord : List W → W) (round : S → W → W → S) (add : S → S → S) : Prop where
  pos_size : 0 < d.size
  toNat_ofNat : ∀ n, toNat (ofNat n) = n % d.base
  toNat_lt : ∀ w, toNat w < d.base
  toNat_nextWord : ∀ window,
    toNat (nextWord window) = d.nextWord (Nat.ofDigits d.base (window.map toNat))
  numbers_round : ∀ s k w, numbers (round s k w) = d.round (numbers s) (toNat k) (toNat w)
  numbers_add : ∀ s t, numbers (add s t) = d.add (numbers s) (numbers t)

section Follows

variable {d} {W S : Type} {toNat : W → ℕ} {numbers : S → WordState}

theorem word_map_toNat {zero : W} (hlt : ∀ w, toNat w < d.base) (hzero : toNat zero = 0)
    (window : List W) (i : ℕ) :
    d.word (Nat.ofDigits d.base (window.map toNat)) i = toNat (window.getD i zero) := by
  rw [word_ofDigits (List.forall_mem_map.mpr fun w _ => hlt w), ← hzero, List.getD_map]

variable {ofNat : ℕ → W} {nextWord : List W → W} {round : S → W → W → S} {add : S → S → S}
  (h : Follows d toNat numbers ofNat nextWord round add)

include h

section Rounds

variable {rounds : List W → List W → S → S} (hnil : ∀ window s, rounds [] window s = s)
  (hcons : ∀ k ks window s, rounds (k :: ks) window s =
    rounds ks (window.drop 1 ++ [nextWord window]) (round s k (window.getD 0 (ofNat 0))))

include hnil hcons

/-- Rounds on words are rounds on their numbers, as long as the window holds sixteen words. -/
theorem Follows.numbers_rounds (ks window : List W) (s : S) (hlen : window.length = 16) :
    numbers (rounds ks window s) =
      d.rounds (ks.map toNat) (Nat.ofDigits d.base (window.map toNat)) (numbers s) := by
  induction ks generalizing window s with
  | nil => rw [hnil, List.map_nil, HashDesign.rounds]
  | cons k ks ih =>
    -- The window keeps its sixteen words: the first one leaves where the next one enters.
    have hwords : ∀ w ∈ window.map toNat, w < d.base :=
      List.forall_mem_map.mpr fun w _ => h.toNat_lt w
    have hzero : toNat (ofNat 0) = 0 := (h.toNat_ofNat 0).trans (Nat.zero_mod _)
    have hmoved := moved_ofDigits hwords (by rw [List.length_map, hlen])
    rw [← h.toNat_nextWord, ← List.map_drop, ← List.map_singleton, ← List.map_append] at hmoved
    rw [hcons, ih _ _ (by simp [hlen]), h.numbers_round, List.map_cons, HashDesign.rounds, hmoved,
      word_map_toNat h.toNat_lt hzero]

/-- **A block stirs words as it stirs their numbers.** -/
theorem Follows.numbers_compress {constants : List W}
    (hconstants : constants.map toNat = d.constants) (s : S) {block : Bytes}
    (hblock : block.length = 16 * d.size) :
    numbers (add s (rounds constants ((Padding.groups d.size block).map fun w =>
      ofNat (Bytes.toNat w)) s)) = d.compress (numbers s) block := by
  have hpack : Nat.ofDigits d.base (((Padding.groups d.size block).map fun w =>
      ofNat (Bytes.toNat w)).map toNat) = d.pack block := by
    rw [List.map_map, pack]
    exact congrArg _ (List.map_congr_left fun w _ => h.toNat_ofNat _)
  rw [h.numbers_add, h.numbers_rounds hnil hcons _ _ _
    (by rw [List.length_map, Padding.length_groups h.pos_size hblock]), hpack, hconstants, compress]

end Rounds

/-- Blocks that are stirred one after the other stir words as they stir their numbers. -/
theorem Follows.numbers_foldl {compress : S → Bytes → S}
    (hcompress : ∀ s block, block.length = 16 * d.size →
      numbers (compress s block) = d.compress (numbers s) block)
    (message : Bytes) (s : S) :
    numbers ((Padding.groups (16 * d.size)
        (Padding.pad (16 * d.size) (2 * d.size) message)).foldl compress s) =
      (Padding.groups (16 * d.size) (Padding.pad (16 * d.size) (2 * d.size) message)).foldl
        d.compress (numbers s) := by
  have hblocks : ∀ block ∈ Padding.groups (16 * d.size)
      (Padding.pad (16 * d.size) (2 * d.size) message), block.length = 16 * d.size :=
    fun block => Padding.length_of_mem_groups
      (Padding.length_pad_mod _ message (Nat.mul_pos (by decide) h.pos_size))
  -- From here on, all that counts is how long the blocks are.
  generalize Padding.groups (16 * d.size) (Padding.pad (16 * d.size) (2 * d.size) message) = blocks
    at hblocks
  induction blocks generalizing s with
  | nil => rfl
  | cons block blocks ih =>
    obtain ⟨hblock, hblocks⟩ := List.forall_mem_cons.mp hblocks
    rw [List.foldl_cons, List.foldl_cons, ih _ hblocks, hcompress s block hblock]

end Follows

end HashDesign

/-! ### Words of four bytes -/

namespace Sha256

/-- The numbers of the words. -/
def State.numbers (s : State) : WordState :=
  ⟨s.a.toNat, s.b.toNat, s.c.toNat, s.d.toNat, s.e.toNat, s.f.toNat, s.g.toNat, s.h.toNat⟩

/-- The design with words of four bytes. -/
def design : HashDesign where
  size := 4
  start := State.start.numbers
  constants := roundConstants.map UInt32.toNat
  stirred := (6, 11, 25)
  turned := (2, 13, 22)
  early := (7, 18, 3)
  late := (17, 19, 10)

theorem base_design : design.base = 2 ^ 32 := rfl

theorem toNat_rotateRight (x n : UInt32) (hpos : 0 < n.toNat) (hlt : n.toNat < 32) :
    (rotateRight x n).toNat = design.rotate x.toNat n.toNat := by
  have hsub : (32 - n).toNat = 32 - n.toNat :=
    UInt32.toNat_sub_of_le _ _ (UInt32.le_iff_toNat_le.mpr hlt.le)
  have hmod : (32 - n.toNat) % 32 = 32 - n.toNat := Nat.mod_eq_of_lt (by omega)
  rw [rotateRight, UInt32.toNat_or, UInt32.toNat_shiftRight, UInt32.toNat_shiftLeft, hsub, hmod,
    Nat.mod_eq_of_lt hlt]
  rfl

theorem follows_design :
    design.Follows UInt32.toNat State.numbers UInt32.ofNat nextWord round State.add where
  pos_size := by decide
  toNat_ofNat _ := UInt32.toNat_ofNat'
  toNat_lt := UInt32.toNat_lt
  toNat_nextWord window := by
    have hword : ∀ i, design.word (Nat.ofDigits design.base (window.map UInt32.toNat)) i =
        (window.getD i 0).toNat :=
      HashDesign.word_map_toNat UInt32.toNat_lt (rfl : UInt32.toNat 0 = 0) window
    rw [HashDesign.nextWord, hword, hword, hword, hword]
    simp (disch := decide) only [nextWord, HashDesign.shift, UInt32.toNat_add, UInt32.toNat_xor,
      UInt32.toNat_shiftRight, toNat_rotateRight, base_design, Nat.mod_add_mod]
    rfl
  numbers_round s k w := by
    simp (disch := decide) only [State.numbers, round, HashDesign.round, HashDesign.turn,
      UInt32.toNat_add, UInt32.toNat_xor, UInt32.toNat_and, UInt32.toNat_not, toNat_rotateRight,
      base_design, Nat.mod_add_mod, Nat.add_mod_mod]
    rfl
  numbers_add s t := by
    simp only [State.numbers, State.add, HashDesign.add, UInt32.toNat_add, base_design]

/-- **The digest with words of four bytes is the one on numbers.** -/
theorem hash_eq : hash = design.hash := by
  funext message
  have hwords : ∀ s : State, s.words.flatMap (fun w => Bytes.ofNat 4 w.toNat) =
      (HashDesign.words s.numbers).flatMap (Bytes.ofNat 4) := fun _ => rfl
  have hcompress : ∀ s block, block.length = 16 * design.size →
      (compress s block).numbers = design.compress s.numbers block := fun s _ hblock =>
    follows_design.numbers_compress (fun _ _ => rfl) (fun _ _ _ _ => rfl) rfl s hblock
  rw [hash, hwords]
  exact congrArg (fun s => (HashDesign.words s).flatMap (Bytes.ofNat 4))
    (follows_design.numbers_foldl hcompress message State.start)

end Sha256

/-! ### Words of eight bytes -/

namespace Sha512

/-- The numbers of the words. -/
def State.numbers (s : State) : WordState :=
  ⟨s.a.toNat, s.b.toNat, s.c.toNat, s.d.toNat, s.e.toNat, s.f.toNat, s.g.toNat, s.h.toNat⟩

/-- The design with words of eight bytes. -/
def design : HashDesign where
  size := 8
  start := State.start.numbers
  constants := roundConstants.map UInt64.toNat
  stirred := (14, 18, 41)
  turned := (28, 34, 39)
  early := (1, 8, 7)
  late := (19, 61, 6)

theorem base_design : design.base = 2 ^ 64 := rfl

theorem toNat_rotateRight (x n : UInt64) (hpos : 0 < n.toNat) (hlt : n.toNat < 64) :
    (rotateRight x n).toNat = design.rotate x.toNat n.toNat := by
  have hsub : (64 - n).toNat = 64 - n.toNat :=
    UInt64.toNat_sub_of_le _ _ (UInt64.le_iff_toNat_le.mpr hlt.le)
  have hmod : (64 - n.toNat) % 64 = 64 - n.toNat := Nat.mod_eq_of_lt (by omega)
  rw [rotateRight, UInt64.toNat_or, UInt64.toNat_shiftRight, UInt64.toNat_shiftLeft, hsub, hmod,
    Nat.mod_eq_of_lt hlt]
  rfl

theorem follows_design :
    design.Follows UInt64.toNat State.numbers UInt64.ofNat nextWord round State.add where
  pos_size := by decide
  toNat_ofNat _ := UInt64.toNat_ofNat'
  toNat_lt := UInt64.toNat_lt
  toNat_nextWord window := by
    have hword : ∀ i, design.word (Nat.ofDigits design.base (window.map UInt64.toNat)) i =
        (window.getD i 0).toNat :=
      HashDesign.word_map_toNat UInt64.toNat_lt (rfl : UInt64.toNat 0 = 0) window
    rw [HashDesign.nextWord, hword, hword, hword, hword]
    simp (disch := decide) only [nextWord, HashDesign.shift, UInt64.toNat_add, UInt64.toNat_xor,
      UInt64.toNat_shiftRight, toNat_rotateRight, base_design, Nat.mod_add_mod]
    rfl
  numbers_round s k w := by
    simp (disch := decide) only [State.numbers, round, HashDesign.round, HashDesign.turn,
      UInt64.toNat_add, UInt64.toNat_xor, UInt64.toNat_and, UInt64.toNat_not, toNat_rotateRight,
      base_design, Nat.mod_add_mod, Nat.add_mod_mod]
    rfl
  numbers_add s t := by
    simp only [State.numbers, State.add, HashDesign.add, UInt64.toNat_add, base_design]

/-- **The digest with words of eight bytes is the one on numbers.** -/
theorem hash_eq : hash = design.hash := by
  funext message
  have hwords : ∀ s : State, s.words.flatMap (fun w => Bytes.ofNat 8 w.toNat) =
      (HashDesign.words s.numbers).flatMap (Bytes.ofNat 8) := fun _ => rfl
  have hcompress : ∀ s block, block.length = 16 * design.size →
      (compress s block).numbers = design.compress s.numbers block := fun s _ hblock =>
    follows_design.numbers_compress (fun _ _ => rfl) (fun _ _ _ _ => rfl) rfl s hblock
  rw [hash, hwords]
  exact congrArg (fun s => (HashDesign.words s).flatMap (Bytes.ofNat 8))
    (follows_design.numbers_foldl hcompress message State.start)

end Sha512

end WalletApi
