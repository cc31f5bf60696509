import Mathlib.Algebra.Group.Nat.Defs
import WalletApi.Key.Child

/-!
# Which groups of a nonce are hardened

A nonce is cut into groups of eight digits. The groups are made of the digits of the nonce, in
order (`WalletApi.ChildNumber.flatten_groups`), and where their number is a multiple of eight, all
of them are full (`WalletApi.ChildNumber.groups_of_length`).

A group of eight digits has a value up to `2 ^ 32 - 1`, and one that reaches `2 ^ 31 - 1` is lowered
by that much. The greatest value alone stays at `2 ^ 31` or above, and it is the value of eight
digits fifteen. So this group is the only hardened one
(`WalletApi.ChildNumber.isHardened_ofGroup`).
-/

namespace WalletApi

/-- The number of a character as a hexadecimal digit, zero if it is none. -/
def Hex.number (c : Char) : ℕ := (Hex.value? c).getD 0

theorem Hex.number_lt (c : Char) : Hex.number c < 16 := by
  rw [Hex.number, Hex.value?]
  split
  · next h =>
    have hle : c.toNat ≤ '9'.toNat := h.2
    have hnine : '9'.toNat = 57 := rfl
    rw [Option.getD_some]
    omega
  · split
    · next h =>
      have hle : c.toNat ≤ 'f'.toNat := h.2
      have hf : 'f'.toNat = 102 := rfl
      rw [Option.getD_some]
      omega
    · split
      · next h =>
        have hle : c.toNat ≤ 'F'.toNat := h.2
        have hf : 'F'.toNat = 70 := rfl
        rw [Option.getD_some]
        omega
      · rw [Option.getD_none]
        omega

namespace ChildNumber

/-! ### Groups -/

theorem groups_nil : groups [] = [] := by rw [groups, dif_pos rfl]

theorem groups_of_ne_nil {digits : List Char} (h : digits ≠ []) :
    groups digits = digits.take groupLength :: groups (digits.drop groupLength) := by
  rw [groups, dif_neg h]

/-- The groups put together are the digits again. -/
theorem flatten_groups (digits : List Char) : (groups digits).flatten = digits := by
  fun_induction groups digits with
  | case1 => rfl
  | case2 digits hne ih => rw [List.flatten_cons, ih, List.take_append_drop]

theorem mem_of_mem_groups {digits g : List Char} {c : Char} (hg : g ∈ groups digits)
    (hc : c ∈ g) : c ∈ digits := by
  rw [← flatten_groups digits]
  exact List.mem_flatten.mpr ⟨g, hg, hc⟩

/-- A multiple of eight digits makes full groups only. -/
theorem groups_of_length {digits : List Char} {k : ℕ} (h : digits.length = 8 * k) :
    (groups digits).length = k ∧ ∀ g ∈ groups digits, g.length = 8 := by
  induction k generalizing digits with
  | zero =>
    rw [List.length_eq_zero_iff.mp h, groups_nil]
    exact ⟨rfl, fun g hg => absurd hg List.not_mem_nil⟩
  | succ k ih =>
    have hne : digits ≠ [] := by
      rintro rfl
      rw [List.length_nil] at h
      omega
    have hdrop : (digits.drop groupLength).length = 8 * k := by
      rw [List.length_drop, groupLength]
      omega
    have htake : (digits.take groupLength).length = 8 := by
      rw [List.length_take, groupLength]
      omega
    obtain ⟨hlen, hall⟩ := ih hdrop
    rw [groups_of_ne_nil hne]
    refine ⟨by rw [List.length_cons, hlen], fun g hg => ?_⟩
    rcases List.mem_cons.mp hg with rfl | hg
    · exact htake
    · exact hall g hg

/-! ### Values of groups -/

/-- The value after some digits, from the value before them. -/
def valueFrom (n : ℕ) (digits : List Char) : ℕ :=
  digits.foldl (fun n c => n * 16 + Hex.number c) n

theorem groupValue_eq (digits : List Char) : groupValue digits = valueFrom 0 digits := rfl

theorem valueFrom_cons (n : ℕ) (c : Char) (digits : List Char) :
    valueFrom n (c :: digits) = valueFrom (n * 16 + Hex.number c) digits := rfl

/-- A value is below the next power, and just below it where all digits are fifteen. -/
theorem valueFrom_lt (n : ℕ) (digits : List Char) :
    valueFrom n digits < (n + 1) * 16 ^ digits.length := by
  induction digits generalizing n with
  | nil => simp [valueFrom]
  | cons c digits ih =>
    have hc := Hex.number_lt c
    calc valueFrom n (c :: digits)
        < (n * 16 + Hex.number c + 1) * 16 ^ digits.length := ih _
      _ ≤ (16 * (n + 1)) * 16 ^ digits.length := Nat.mul_le_mul_right _ (by omega)
      _ = (n + 1) * 16 ^ (digits.length + 1) := by rw [Nat.pow_succ, Nat.mul_comm 16]; ac_rfl

theorem valueFrom_add_one_eq_iff (n : ℕ) (digits : List Char) :
    valueFrom n digits + 1 = (n + 1) * 16 ^ digits.length ↔
      ∀ c ∈ digits, Hex.number c = 15 := by
  induction digits generalizing n with
  | nil => simp [valueFrom]
  | cons c digits ih =>
    have hc := Hex.number_lt c
    have hpos : 0 < 16 ^ digits.length := Nat.pow_pos (by omega)
    have hpow : (n + 1) * 16 ^ (digits.length + 1) = (n * 16 + 15 + 1) * 16 ^ digits.length := by
      rw [Nat.pow_succ, show n * 16 + 15 + 1 = 16 * (n + 1) by omega]
      ac_rfl
    rw [valueFrom_cons, List.length_cons, List.forall_mem_cons, hpow]
    by_cases hfifteen : Hex.number c = 15
    · rw [hfifteen, ih]
      simp
    · -- A smaller first digit leaves a gap that the other digits cannot fill.
      have hgap : (n * 16 + Hex.number c + 1) * 16 ^ digits.length
          < (n * 16 + 15 + 1) * 16 ^ digits.length :=
        Nat.mul_lt_mul_of_pos_right (by omega) hpos
      have hlt := valueFrom_lt (n * 16 + Hex.number c) digits
      simp only [hfifteen, false_and, iff_false]
      omega

/-- **The only hardened groups are those of eight digits fifteen.** -/
theorem isHardened_ofGroup {digits : List Char} (h : digits.length = 8) :
    (ofGroup digits).isHardened = true ↔ ∀ c ∈ digits, Hex.number c = 15 := by
  have hlt := valueFrom_lt 0 digits
  have hiff := valueFrom_add_one_eq_iff 0 digits
  rw [h, ← groupValue_eq] at hlt hiff
  rw [← hiff, ofGroup, isHardened, hardenedStart, groupOffset, decide_eq_true_eq]
  simp only [UInt32.toNat_ofNat']
  split <;> omega

end ChildNumber

end WalletApi
