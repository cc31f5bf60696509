import Mathlib.Data.List.Basic
import WalletApi.Key.Child

/-!
# How deep a path leads

Each step of a derivation goes one level down, and there is no level below 255. Apart from a digest
that is no usable number, which happens about once in `2 ^ 127` steps, this is all that a step from
a secret key can meet. So whether a path can be followed is told by its length and the depth that it
starts from (`WalletApi.Xpriv.descendant_cases`).
-/

namespace WalletApi

/-- The child of a key is one level deeper, or there is none for one of two reasons. -/
theorem Xpriv.derive_cases (k : Xpriv) (c : ChildNumber) :
    (∃ child, k.derive c = .ok child ∧ child.depth.toNat = k.depth.toNat + 1) ∨
      k.derive c = .error .unusableDigest ∨
      k.derive c = .error .depthExceeded ∧ k.depth.toNat = 255 := by
  have hbelow : ∀ digest : Bytes, (k.toLineage.below? k.key.publicKey c digest = none ∧
      k.depth.toNat = 255) ∨ ∃ lineage, k.toLineage.below? k.key.publicKey c digest =
        some lineage ∧ lineage.depth.toNat = k.depth.toNat + 1 := by
    intro digest
    rw [Lineage.below?]
    split
    · next hdepth => exact .inl ⟨rfl, congrArg UInt8.toNat hdepth⟩
    · next hdepth =>
      refine .inr ⟨_, rfl, ?_⟩
      have hlt := k.depth.toNat_lt
      have hne : k.depth.toNat ≠ 255 := fun heq => hdepth (UInt8.toNat_inj.mp heq)
      rw [UInt8.toNat_add, UInt8.toNat_one]
      omega
  rw [Xpriv.derive]
  split
  · exact .inr (.inl rfl)
  · split
    · exact .inr (.inl rfl)
    · rcases hbelow _ with ⟨hnone, hdepth⟩ | ⟨lineage, hsome, hdepth⟩
      · rw [hnone]
        exact .inr (.inr ⟨rfl, hdepth⟩)
      · rw [hsome]
        exact .inl ⟨_, rfl, hdepth⟩

/-- **A path can be followed as far as there are levels below.** -/
theorem Xpriv.descendant_cases (k : Xpriv) (path : List ChildNumber) :
    (∃ child, k.descendant path = .ok child ∧
        child.depth.toNat = k.depth.toNat + path.length) ∨
      k.descendant path = .error .unusableDigest ∨
      k.descendant path = .error .depthExceeded ∧ 255 < k.depth.toNat + path.length := by
  induction path generalizing k with
  | nil => exact .inl ⟨k, rfl, rfl⟩
  | cons c path ih =>
    rw [Xpriv.descendant, List.foldlM_cons, List.length_cons]
    rcases k.derive_cases c with ⟨child, hchild, hdepth⟩ | herror | ⟨herror, hdepth⟩
    · rw [hchild]
      rcases ih child with ⟨last, hlast, hlen⟩ | hstop | ⟨hstop, hlen⟩
      · exact .inl ⟨last, hlast, by omega⟩
      · exact .inr (.inl hstop)
      · exact .inr (.inr ⟨hstop, by omega⟩)
    · rw [herror]
      exact .inr (.inl rfl)
    · rw [herror]
      exact .inr (.inr ⟨rfl, by omega⟩)

end WalletApi
