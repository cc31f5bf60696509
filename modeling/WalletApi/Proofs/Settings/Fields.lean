import WalletApi.Proofs.Client.Builder
import WalletApi.Settings.Basic

/-!
# What is found for a field, and what the field gets

The six fields of the settings are looked up one by one, four as texts and two as counts. What is
found under a key is brought to the type of its field, and that succeeds for all values of some
kinds (`WalletApi.SettingValue.CanBeText`, `WalletApi.SettingValue.CanBeCount`). So entries give
settings exactly where each of the six values fits
(`WalletApi.ClientSettings.exists_ofEntries_iff`), each field depends on its own value
(`WalletApi.ClientSettings.ofEntries_eq_ok_iff`), and entries under other keys play no part
(`WalletApi.ClientSettings.ofEntries_congr`).
-/

namespace WalletApi

/-! ### Bringing values to the types of fields -/

namespace SettingValue

/-- The value can stand for a text. -/
def CanBeText : SettingValue → Prop
  | .list => False
  | .table => False
  | _ => True

/-- The value can stand for a count. -/
def CanBeCount : SettingValue → Prop
  | .integer n => 0 ≤ n
  | .text s => (countOfText? s).isSome
  | .list => False
  | .table => False
  | _ => True

theorem exists_toText_iff {v : SettingValue} {key : String} {origin : Option Origin} :
    (∃ r, v.toText key origin = .ok r) ↔ v.CanBeText := by
  cases v <;> simp [toText, refuse, CanBeText]

theorem exists_toCount_iff {v : SettingValue} {key : String} {origin : Option Origin} :
    (∃ r, v.toCount key origin = .ok r) ↔ v.CanBeCount := by
  cases v with
  | integer n => by_cases hn : 0 ≤ n <;> simp [toCount, refuse, CanBeCount, hn]
  | text s => cases hs : countOfText? s <;> simp [toCount, refuse, CanBeCount, hs]
  | _ => simp [toCount, refuse, CanBeCount]

end SettingValue

namespace ClientSettings

/-- The text that a field gets from the value found for it. -/
def asText (key : String) : Option Placed → Except SettingsFault (Option String)
  | none => .ok none
  | some (origin, v) => v.toText key origin

/-- The count that a field gets from the value found for it. -/
def asCount (key : String) : Option Placed → Except SettingsFault (Option ℕ)
  | none => .ok none
  | some (origin, v) => v.toCount key origin

/-- The keys of the fields that are texts. -/
def textKeys : List String := ["base_url", "xpriv", "xpub", "access_key"]

/-- The keys of the fields that are counts. -/
def countKeys : List String := ["timeout_secs", "connect_timeout_secs"]

/-- The fields that are texts, by key. -/
def texts (s : ClientSettings) : List (String × Option String) :=
  [("base_url", s.baseUrl), ("xpriv", s.xpriv), ("xpub", s.xpub), ("access_key", s.accessKey)]

/-- The fields that are counts, by key. -/
def counts (s : ClientSettings) : List (String × Option ℕ) :=
  [("timeout_secs", s.timeoutSecs), ("connect_timeout_secs", s.connectTimeoutSecs)]

theorem textOf_eq (entries : List (String × Placed)) (key : String) :
    textOf entries key = asText key (entries.lookup key) := by
  rw [textOf]
  cases entries.lookup key <;> rfl

theorem countOf_eq (entries : List (String × Placed)) (key : String) :
    countOf entries key = asCount key (entries.lookup key) := by
  rw [countOf]
  cases entries.lookup key <;> rfl

theorem exists_asText_iff {key : String} {w : Option Placed} :
    (∃ r, asText key w = .ok r) ↔ ∀ p ∈ w, p.2.CanBeText := by
  cases w with
  | none => simp [asText]
  | some p => simp [asText, SettingValue.exists_toText_iff]

theorem exists_asCount_iff {key : String} {w : Option Placed} :
    (∃ r, asCount key w = .ok r) ↔ ∀ p ∈ w, p.2.CanBeCount := by
  cases w with
  | none => simp [asCount]
  | some p => simp [asCount, SettingValue.exists_toCount_iff]

/-- Nothing is set where no value is found, or a missing one. -/
def IsUnset (w : Option Placed) : Prop := ∀ p ∈ w, p.2 = .missing

theorem eq_none_iff_of_asText {key : String} {w : Option Placed} {r : Option String}
    (h : asText key w = .ok r) : r = none ↔ IsUnset w := by
  cases w with
  | none =>
    obtain rfl := Except.ok.inj h
    simp [IsUnset]
  | some p =>
    obtain ⟨origin, v⟩ := p
    rw [asText] at h
    cases v with
    | list => exact nomatch h
    | table => exact nomatch h
    | _ =>
      obtain rfl := Except.ok.inj h
      simp [IsUnset]

theorem eq_none_iff_of_asCount {key : String} {w : Option Placed} {r : Option ℕ}
    (h : asCount key w = .ok r) : r = none ↔ IsUnset w := by
  cases w with
  | none =>
    obtain rfl := Except.ok.inj h
    simp [IsUnset]
  | some p =>
    obtain ⟨origin, v⟩ := p
    rw [asCount] at h
    cases v with
    | list => exact nomatch h
    | table => exact nomatch h
    | integer n =>
      obtain ⟨-, rfl⟩ := ite_eq_ok.mp h
      simp [IsUnset]
    | text s =>
      cases hs : SettingValue.countOfText? s with
      | none => simp [SettingValue.toCount, SettingValue.refuse, hs] at h
      | some n =>
        simp only [SettingValue.toCount, hs, Except.ok.injEq] at h
        simp [IsUnset, ← h]
    | _ =>
      obtain rfl := Except.ok.inj h
      simp [IsUnset]

/-- **The settings of entries** are those whose every field is what is found under its key. -/
theorem ofEntries_eq_ok_iff {entries : List (String × Placed)} {s : ClientSettings} :
    ofEntries entries = .ok s ↔
      (∀ f ∈ s.texts, asText f.1 (entries.lookup f.1) = .ok f.2) ∧
        ∀ f ∈ s.counts, asCount f.1 (entries.lookup f.1) = .ok f.2 := by
  simp only [ofEntries, textOf_eq, countOf_eq, texts, counts, bind_eq_ok, List.forall_mem_cons]
  constructor
  · rintro ⟨baseUrl, hbase, timeout, htimeout, connect, hconnect, xpriv, hxpriv, xpub, hxpub,
      accessKey, hkey, h⟩
    obtain rfl := Except.ok.inj h
    exact ⟨⟨hbase, hxpriv, hxpub, hkey, List.forall_mem_nil _⟩, htimeout, hconnect,
      List.forall_mem_nil _⟩
  · rintro ⟨⟨hbase, hxpriv, hxpub, hkey, -⟩, htimeout, hconnect, -⟩
    exact ⟨_, hbase, _, htimeout, _, hconnect, _, hxpriv, _, hxpub, _, hkey, rfl⟩

/-- Entries give settings where every value that is found fits its field. -/
theorem exists_ofEntries_iff {entries : List (String × Placed)} :
    (∃ s, ofEntries entries = .ok s) ↔
      (∀ key ∈ textKeys, ∀ p ∈ entries.lookup key, p.2.CanBeText) ∧
        ∀ key ∈ countKeys, ∀ p ∈ entries.lookup key, p.2.CanBeCount := by
  have htexts : (∀ key ∈ textKeys, ∀ p ∈ entries.lookup key, p.2.CanBeText) ↔
      ∀ key ∈ textKeys, ∃ r, asText key (entries.lookup key) = .ok r :=
    forall₂_congr fun _ _ => exists_asText_iff.symm
  have hcounts : (∀ key ∈ countKeys, ∀ p ∈ entries.lookup key, p.2.CanBeCount) ↔
      ∀ key ∈ countKeys, ∃ r, asCount key (entries.lookup key) = .ok r :=
    forall₂_congr fun _ _ => exists_asCount_iff.symm
  rw [htexts, hcounts]
  -- six results that exist each by themselves are six fields of one record
  simp only [ofEntries_eq_ok_iff, textKeys, countKeys, texts, counts, List.forall_mem_cons]
  constructor
  · rintro ⟨s, ⟨hbase, hxpriv, hxpub, hkey, -⟩, htimeout, hconnect, -⟩
    exact ⟨⟨⟨_, hbase⟩, ⟨_, hxpriv⟩, ⟨_, hxpub⟩, ⟨_, hkey⟩, List.forall_mem_nil _⟩,
      ⟨_, htimeout⟩, ⟨_, hconnect⟩, List.forall_mem_nil _⟩
  · rintro ⟨⟨⟨_, hbase⟩, ⟨_, hxpriv⟩, ⟨_, hxpub⟩, ⟨_, hkey⟩, -⟩, ⟨_, htimeout⟩, ⟨_, hconnect⟩, -⟩
    exact ⟨⟨_, _, _, _, _, _⟩, ⟨hbase, hxpriv, hxpub, hkey, List.forall_mem_nil _⟩, htimeout,
      hconnect, List.forall_mem_nil _⟩

/-- The settings of entries depend on what is found under the six keys, and on nothing else. -/
theorem ofEntries_congr {entries others : List (String × Placed)}
    (h : ∀ key ∈ textKeys ++ countKeys, entries.lookup key = others.lookup key) :
    ofEntries entries = ofEntries others := by
  have hbase := h "base_url" (by decide)
  have htimeout := h "timeout_secs" (by decide)
  have hconnect := h "connect_timeout_secs" (by decide)
  have hxpriv := h "xpriv" (by decide)
  have hxpub := h "xpub" (by decide)
  have hkey := h "access_key" (by decide)
  simp only [ofEntries, textOf_eq, countOf_eq, hbase, htimeout, hconnect, hxpriv, hxpub, hkey]

/-- **The configuration of settings** has the defaults for what they leave open, and the credential
of the kind that outranks the others. -/
theorem toConfig_fst (s : ClientSettings) :
    s.toConfig.1 =
      { baseUrl := s.baseUrl.getD ClientConfig.default.baseUrl
        timeout := (s.timeoutSecs.map (· * 1000)).getD ClientConfig.default.timeout
        connectTimeout :=
          (s.connectTimeoutSecs.map (· * 1000)).getD ClientConfig.default.connectTimeout
        credential :=
          (s.accessKey.map Credential.accessKey).or
            ((s.xpriv.map Credential.xpriv).or (s.xpub.map Credential.xpub)) } := by
  rw [toConfig, ← Credential.select_fst]

end ClientSettings

end WalletApi
