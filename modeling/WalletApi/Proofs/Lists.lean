import Mathlib.Data.List.Forall2

/-!
# Lists of any entries

What a reader finds in front of a text, what a table holds under a key and how the entries of two
documents correspond are settled here for lists of any entries:

* where a list begins with an entry that fails a test, everything in front of it is cut as if it
  stood alone (`WalletApi.takeWhile_append_of_head?`, `WalletApi.dropWhile_append_of_head?`);
* entries that correspond one by one are found on the other side (`WalletApi.exists_of_forall₂`),
  and correspondences follow one another (`WalletApi.forall₂_trans`);
* a key is found whatever is made of the values (`WalletApi.lookup_map_snd`).
-/

namespace WalletApi

variable {α β : Type}

/-! ### Cutting in front of an entry -/

section Cutting

variable {p : α → Bool} {tail : List α} (htail : ∀ a ∈ tail.head?, p a = false)

include htail

theorem takeWhile_append_of_head? (front : List α) :
    (front ++ tail).takeWhile p = front.takeWhile p := by
  have hnone : tail.takeWhile p = [] := by
    cases tail with
    | nil => rfl
    | cons a rest =>
      exact List.takeWhile_cons_of_neg (by rw [htail a rfl]; exact Bool.false_ne_true)
  rw [List.takeWhile_append, hnone, List.append_nil]
  -- Either the whole front passes the test, or it is cut inside.
  split
  · next hlen => exact ((List.takeWhile_prefix p).eq_of_length hlen).symm
  · rfl

theorem dropWhile_append_of_head? (front : List α) :
    (front ++ tail).dropWhile p = front.dropWhile p ++ tail := by
  have hkeep : tail.dropWhile p = tail := by
    cases tail with
    | nil => rfl
    | cons a rest =>
      exact List.dropWhile_cons_of_neg (by rw [htail a rfl]; exact Bool.false_ne_true)
  rw [List.dropWhile_append, hkeep]
  -- Either nothing of the front is left, or it is cut inside.
  split
  · next hempty => rw [List.isEmpty_iff.mp hempty, List.nil_append]
  · rfl

end Cutting

/-! ### Entries that correspond -/

theorem exists_of_forall₂ {R : α → β → Prop} {l : List α} {m : List β} (h : List.Forall₂ R l m)
    {a : α} (ha : a ∈ l) : ∃ b ∈ m, R a b := by
  induction h with
  | nil => exact absurd ha List.not_mem_nil
  | @cons c b l m hcb _ ih =>
    rcases List.mem_cons.mp ha with rfl | ha
    · exact ⟨b, List.mem_cons_self, hcb⟩
    · obtain ⟨d, hd, had⟩ := ih ha
      exact ⟨d, List.mem_cons_of_mem b hd, had⟩

section Related

variable {R : α → α → Prop}

/-- One changed entry among entries that stay as they are. -/
theorem forall₂_middle (hR : ∀ a, R a a) (pre post : List α) {a b : α} (h : R a b) :
    List.Forall₂ R (pre ++ a :: post) (pre ++ b :: post) := by
  have hrefl : ∀ l : List α, List.Forall₂ R l l := fun l => List.forall₂_same.mpr fun a _ => hR a
  exact List.rel_append (hrefl pre) (.cons h (hrefl post))

/-- Two correspondences of entries, one after the other. -/
theorem forall₂_trans (hR : ∀ {a b c}, R a b → R b c → R a c) {l m n : List α}
    (h : List.Forall₂ R l m) (h' : List.Forall₂ R m n) : List.Forall₂ R l n := by
  induction h generalizing n with
  | nil => exact h'
  | cons hab _ ih =>
    cases h' with
    | cons hbc htail => exact .cons (hR hab hbc) (ih htail)

end Related

/-! ### Looking up a key -/

theorem lookup_map_snd (f : α → β) (l : List (String × α)) (key : String) :
    (l.map fun e => (e.1, f e.2)).lookup key = (l.lookup key).map f := by
  induction l with
  | nil => rfl
  | cons e rest ih =>
    rw [List.map_cons, List.lookup_cons, List.lookup_cons]
    cases key == e.1 with
    | true => rfl
    | false => exact ih

end WalletApi
