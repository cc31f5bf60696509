import WalletApi.Proofs.Key.Steps

/-!
# Which nonces share a path

A group whose value reaches the offset `2 ^ 31 - 1` makes the step of its value less the offset, and
any other group the step of its value. So the steps below the offset are made twice, once from
either side of it. Eight digits reach two steps beyond: `fffffffe` makes the offset itself and
`ffffffff` the number after it, and these two steps are made by no other value.

Thus the reduction is neither one-to-one nor a remainder. Two values make one step exactly if they
are equal or if they are apart by the offset and the lower one is below it
(`WalletApi.ChildNumber.ofGroup_eq_iff`), and two nonces share a path exactly if their groups do so
one by one (`WalletApi.ChildNumber.paths_eq_iff`).
-/

namespace WalletApi

/-! ### Digits in lower case -/

namespace Hex

/-- The hexadecimal digits in lower case. -/
def IsLower (c : Char) : Prop := ('0' ≤ c ∧ c ≤ '9') ∨ ('a' ≤ c ∧ c ≤ 'f')

theorem IsLower.isDigit {c : Char} (h : IsLower c) : IsDigit c := h.imp_right Or.inl

/-- In lower case a number has one digit. -/
theorem IsLower.eq_of_number_eq {c d : Char} (hc : IsLower c) (hd : IsLower d)
    (h : number c = number d) : c = d := by
  have hbounds : ∀ {e : Char}, IsLower e → e.toNat ≤ 57 ∨ 97 ≤ e.toNat := by
    rintro e (⟨-, he⟩ | ⟨he, -⟩)
    · exact .inl he
    · exact .inr he
  have hc' := hbounds hc
  have hd' := hbounds hd
  refine Char.toNat_inj.mp ?_
  rcases number_cases hc.isDigit with hcases | hcases | hcases <;>
    rcases number_cases hd.isDigit with hcases' | hcases' | hcases' <;> omega

end Hex

namespace ChildNumber

/-! ### Values that make one step -/

/-- Two values are apart by the offset, and the lower one is below it. -/
def AreApart (v w : ℕ) : Prop :=
  (v < 2 ^ 31 - 1 ∧ w = v + (2 ^ 31 - 1)) ∨ (w < 2 ^ 31 - 1 ∧ v = w + (2 ^ 31 - 1))

/-- **Two values make one step**: they are equal, or apart by the offset. -/
def Coincide (v w : ℕ) : Prop := v = w ∨ AreApart v w

/-- The two greatest values of eight digits coincide with no other. -/
theorem Coincide.eq_of_le {v w : ℕ} (h : Coincide v w) (hv : 0xfffffffe ≤ v) : w = v := by
  rcases h with rfl | ⟨hlow, -⟩ | ⟨hlow, rfl⟩
  · rfl
  · omega
  · omega

/-- **Two groups make the same step exactly if their values coincide.** -/
theorem ofGroup_eq_iff {g h : List Char} (hg : g.length ≤ 8) (hh : h.length ≤ 8) :
    ofGroup g = ofGroup h ↔ Coincide (groupValue g) (groupValue h) := by
  have hraw : ofGroup g = ofGroup h ↔ (ofGroup g).raw.toNat = (ofGroup h).raw.toNat := by
    refine ⟨fun heq => by rw [heq], fun heq => ?_⟩
    exact congrArg ChildNumber.mk (UInt32.toNat_inj.mp heq)
  rw [hraw, Coincide, AreApart]
  -- On one side of the offset steps and values correspond one to one.
  rcases ofGroup_cases hg with ⟨hv, hstep⟩ | ⟨hv, hstep⟩ <;>
    rcases ofGroup_cases hh with ⟨hw, hstep'⟩ | ⟨hw, hstep'⟩ <;> omega

/-- In lower case groups of one length are known by their values. -/
theorem eq_of_groupValue_eq {g h : List Char} (hlen : g.length = h.length)
    (hg : ∀ c ∈ g, Hex.IsLower c) (hh : ∀ c ∈ h, Hex.IsLower c)
    (hvalue : groupValue g = groupValue h) : g = h := by
  have hlt : ∀ (l : List Char), ∀ n ∈ (l.map Hex.number).reverse, n < 16 := by
    intro l n hn
    obtain ⟨c, -, rfl⟩ := List.mem_map.mp (List.mem_reverse.mp hn)
    exact Hex.number_lt c
  rw [groupValue_eq_ofDigits, groupValue_eq_ofDigits] at hvalue
  have hnumbers : g.map Hex.number = h.map Hex.number := List.reverse_inj.mp <|
    Nat.ofDigits_inj_of_len_eq (by decide) (by simp [hlen]) (hlt g) (hlt h) hvalue
  refine List.ext_getElem hlen fun i hi hi' => ?_
  refine (hg _ (List.getElem_mem hi)).eq_of_number_eq (hh _ (List.getElem_mem hi')) ?_
  have hnumber := List.getElem_of_eq hnumbers (i := i) (by rwa [List.length_map])
  rwa [List.getElem_map, List.getElem_map] at hnumber

/-! ### Nonces that share a path -/

/-- The values of the groups of a nonce. -/
def groupValues (nonce : String) : List ℕ := (groups nonce.toList).map groupValue

/-- Groups at one place of two nonces of one length are of one length. -/
theorem length_getElem_groups_eq {digits digits' : List Char}
    (hlen : digits.length = digits'.length) {i : ℕ} (hi : i < (groups digits).length)
    (hi' : i < (groups digits').length) :
    (groups digits)[i].length = (groups digits')[i].length := by
  rw [getElem_groups hi, getElem_groups hi', List.length_take, List.length_take, List.length_drop,
    List.length_drop, hlen]

/-- Two paths are the same step by step. -/
theorem map_ofGroup_eq_iff {a b : String} :
    (groups a.toList).map ofGroup = (groups b.toList).map ofGroup ↔
      (groupValues a).length = (groupValues b).length ∧
        ∀ (i : ℕ) (hi : i < (groupValues a).length) (hi' : i < (groupValues b).length),
          Coincide (groupValues a)[i] (groupValues b)[i] := by
  rw [List.ext_getElem_iff]
  simp only [groupValues, List.length_map, List.getElem_map]
  refine and_congr_right fun _ => forall_congr' fun i => forall_congr' fun hi =>
    forall_congr' fun hi' => ?_
  exact ofGroup_eq_iff (length_of_mem_groups (List.getElem_mem hi)).2
    (length_of_mem_groups (List.getElem_mem hi')).2

/-- **Which nonces share a path.** Two nonces that make paths make the same one exactly if they have
as many groups and the values of these coincide one by one. Then every master key gives both the
same keys. So of two nonces in lower case that are of one length, a pair of groups that is neither
the same nor apart by the offset keeps the paths apart, whatever the master key; and where one of
them has a group of value `fffffffe` or `ffffffff`, the other has the same value there. -/
theorem paths_eq_iff {a b : String} {p q : List ChildNumber} (ha : ofNonce a = .ok p)
    (hb : ofNonce b = .ok q) :
    (p = q ↔ (groupValues a).length = (groupValues b).length ∧
      ∀ (i : ℕ) (hi : i < (groupValues a).length) (hi' : i < (groupValues b).length),
        Coincide (groupValues a)[i] (groupValues b)[i]) ∧
    (p = q → (∀ master : Xpriv, master.signingKey a = master.signingKey b) ∧
      ∀ master : Xpub, master.verifyingKey a = master.verifyingKey b) ∧
    (a.length = b.length → (∀ c ∈ a.toList, Hex.IsLower c) → (∀ c ∈ b.toList, Hex.IsLower c) →
      (p = q ↔ ∀ (i : ℕ) (hi : i < (groups a.toList).length) (hi' : i < (groups b.toList).length),
        (groups a.toList)[i] = (groups b.toList)[i] ∨
          AreApart (groupValue (groups a.toList)[i]) (groupValue (groups b.toList)[i]))) ∧
    (p = q → ∀ (i : ℕ) (hi : i < (groupValues a).length) (hi' : i < (groupValues b).length),
      0xfffffffe ≤ (groupValues a)[i] → (groupValues b)[i] = (groupValues a)[i]) := by
  obtain ⟨-, hp⟩ := ofNonce_eq_ok_iff.mp ha
  obtain ⟨-, hq⟩ := ofNonce_eq_ok_iff.mp hb
  have hpaths := map_ofGroup_eq_iff (a := a) (b := b)
  rw [← hp, ← hq] at hpaths
  refine ⟨hpaths, ?_, ?_, ?_⟩
  · rintro rfl
    refine ⟨fun master => ?_, fun master => ?_⟩
    · rw [master.signingKey_of_path ha, master.signingKey_of_path hb]
    · rw [Xpub.verifyingKey_of_path master ha, Xpub.verifyingKey_of_path master hb]
  · intro hlen hlowerA hlowerB
    rw [← String.length_toList, ← String.length_toList] at hlen
    have hcount : (groupValues a).length = (groupValues b).length := by
      rw [groupValues, groupValues, List.length_map, List.length_map, length_groups,
        length_groups, hlen]
    rw [hpaths, and_iff_right hcount]
    simp only [groupValues, List.length_map, List.getElem_map]
    refine forall_congr' fun i => forall_congr' fun hi => forall_congr' fun hi' => ?_
    refine or_congr_left ⟨fun hvalue => ?_, fun hgroup => by rw [hgroup]⟩
    exact eq_of_groupValue_eq (length_getElem_groups_eq hlen hi hi')
      (fun c hc => hlowerA c (mem_of_mem_groups (List.getElem_mem hi) hc))
      (fun c hc => hlowerB c (mem_of_mem_groups (List.getElem_mem hi') hc)) hvalue
  · intro heq i hi hi' hgreat
    exact ((hpaths.mp heq).2 i hi hi').eq_of_le hgreat

/-- Ten, and ten more than the offset, are the first groups of two nonces that share a path and so
sign with the same key. -/
theorem paths_eq_iff_ten : ∃ p q, ofNonce "0000000aabc" = .ok p ∧ ofNonce "80000009abc" = .ok q ∧
    p = q ∧ ∀ master : Xpriv,
      master.signingKey "0000000aabc" = master.signingKey "80000009abc" := by
  obtain ⟨p, ha⟩ : ∃ p, ofNonce "0000000aabc" = .ok p :=
    ⟨[⟨10⟩, ⟨0xabc⟩], by decide +kernel⟩
  obtain ⟨q, hb⟩ : ∃ q, ofNonce "80000009abc" = .ok q :=
    ⟨[⟨10⟩, ⟨0xabc⟩], by decide +kernel⟩
  have hvalues : groupValues "0000000aabc" = [10, 0xabc] := by decide +kernel
  have hvalues' : groupValues "80000009abc" = [0x80000009, 0xabc] := by decide +kernel
  have hten : Coincide 10 0x80000009 := .inr (.inl ⟨by omega, by omega⟩)
  obtain ⟨hpaths, hkeys, -⟩ := paths_eq_iff ha hb
  simp only [hvalues, hvalues'] at hpaths
  have hshared : p = q := hpaths.mpr ⟨rfl, fun i hi _ => by
    match i, hi with
    | 0, _ => exact hten
    | 1, _ => exact .inl rfl⟩
  exact ⟨p, q, ha, hb, hshared, (hkeys hshared).1⟩

end ChildNumber

end WalletApi
