import WalletApi.Proofs.Auth.Headers
import WalletApi.Proofs.Text.Base58

/-!
# What is computed may stand in a header

Every header is checked before it is written, since a value with a control character in it may not
be sent. The check is a safeguard that never acts: what the modes write are texts in hexadecimal,
Base64, Base58 and decimal digits, and all of these are printable ASCII. So a call fails only where
its payload cannot be built (`WalletApi.Authenticator.fields_eq_ok`).
-/

namespace WalletApi

/-- A printable ASCII character. -/
def IsPrintable (c : Char) : Prop := 32 ≤ c.toNat ∧ c.toNat < 127

instance (c : Char) : Decidable (IsPrintable c) := by unfold IsPrintable; infer_instance

/-- The one byte of a printable character may stand in a header. -/
theorem isHeaderByte_of_isPrintable {c : Char} (h : IsPrintable c) :
    (String.utf8EncodeChar c).all isHeaderByte = true := by
  have hval : c.val.toNat = c.toNat := rfl
  -- Printable characters are ASCII, so the character is its one byte.
  have hsize : c.utf8Size = 1 := by
    rw [Char.utf8Size_eq_one_iff, UInt32.le_iff_toNat_le, hval]
    exact Nat.le_of_lt h.2
  have hbyte : c.val.toUInt8.toNat = c.toNat := by
    rw [UInt32.toNat_toUInt8, hval, Nat.mod_eq_of_lt (by have := h.2; omega)]
  have hlow : (32 : UInt8) ≤ c.val.toUInt8 := by
    rw [UInt8.le_iff_toNat_le, hbyte]
    exact h.1
  have hdel : c.val.toUInt8 ≠ 127 := by
    intro heq
    have hnat := congrArg UInt8.toNat heq
    rw [hbyte] at hnat
    exact absurd hnat (Nat.ne_of_lt h.2)
  rw [String.utf8EncodeChar_eq_singleton hsize]
  simp only [List.all_cons, List.all_nil, isHeaderByte, decide_eq_true hlow,
    bne_iff_ne.mpr hdel, Bool.and_self, Bool.true_or]

/-- A printable value passes the check. -/
theorem checkHeader_of_isPrintable {name value : String}
    (h : ∀ c ∈ value.toList, IsPrintable c) : checkHeader (name, value) = .ok (name, value) := by
  have hall : ∀ cs : List Char, (∀ c ∈ cs, IsPrintable c) →
      (Utf8.encode cs).all isHeaderByte = true := by
    intro cs hcs
    induction cs with
    | nil => rfl
    | cons c cs ih =>
      rw [Utf8.encode_cons, List.all_append, isHeaderByte_of_isPrintable (hcs c List.mem_cons_self),
        ih fun d hd => hcs d (List.mem_cons_of_mem c hd)]
      rfl
  rw [checkHeader, if_pos (hall _ h)]

/-! ### The texts of values -/

theorem Hex.isPrintable_digit : ∀ n : Fin 16, IsPrintable (Hex.digit n.val) := by decide +kernel

theorem Hex.isPrintable_encode (bs : Bytes) : ∀ c ∈ Hex.encode bs, IsPrintable c := by
  intro c hc
  obtain ⟨b, -, hc⟩ := List.mem_flatMap.mp hc
  have hb := b.toNat_lt
  rcases List.mem_pair.mp hc with rfl | rfl
  · exact Hex.isPrintable_digit ⟨b.toNat / 16, by omega⟩
  · exact Hex.isPrintable_digit ⟨b.toNat % 16, by omega⟩

theorem Base58.isPrintable_digit : ∀ n : Fin 58, IsPrintable (Base58.digit n.val) := by
  decide +kernel

theorem Base58.isPrintable_encode (bs : Bytes) : ∀ c ∈ Base58.encode bs, IsPrintable c := by
  intro c hc
  obtain ⟨d, hd, rfl⟩ := Base58.exists_digit_of_mem_encode hc
  exact Base58.isPrintable_digit ⟨d, hd⟩

theorem Xpub.isPrintable_text (k : Xpub) : ∀ c ∈ k.text.toList, IsPrintable c := by
  rw [Xpub.text, String.toList_ofList, Base58.encodeChecked]
  exact Base58.isPrintable_encode _

theorem Base64.isPrintable_digit : ∀ n : Fin 64, IsPrintable (Base64.digit n.val) := by
  decide +kernel

theorem Base64.isPrintable_encode (bs : Bytes) : ∀ c ∈ Base64.encode bs, IsPrintable c := by
  have hdigit : ∀ n : ℕ, n < 64 → IsPrintable (Base64.digit n) := fun n hn =>
    Base64.isPrintable_digit ⟨n, hn⟩
  have hfill : IsPrintable '=' := by decide
  fun_induction Base64.encode bs with
  | case1 => simp
  | case2 a =>
    have ha := a.toNat_lt
    simp only [List.forall_mem_cons]
    exact ⟨hdigit _ (by omega), hdigit _ (by omega), hfill, hfill, by simp⟩
  | case3 a b =>
    have ha := a.toNat_lt
    have hb := b.toNat_lt
    simp only [List.forall_mem_cons]
    exact ⟨hdigit _ (by omega), hdigit _ (by omega), hdigit _ (by omega), hfill, by simp⟩
  | case4 a b c rest ih =>
    have ha := a.toNat_lt
    have hb := b.toNat_lt
    have hc := c.toNat_lt
    simp only [List.forall_mem_cons]
    exact ⟨hdigit _ (by omega), hdigit _ (by omega), hdigit _ (by omega), hdigit _ (by omega), ih⟩

theorem isPrintable_of_isDigit {c : Char} (h : c.isDigit = true) : IsPrintable c := by
  have hzero : '0'.toNat = 48 := rfl
  have hnine : '9'.toNat = 57 := rfl
  have hrange := Char.isDigit_iff_toNat.mp h
  exact ⟨by omega, by omega⟩

theorem isPrintable_natRepr (n : ℕ) : ∀ c ∈ n.repr.toList, IsPrintable c := by
  intro c hc
  rw [Nat.toList_repr] at hc
  exact isPrintable_of_isDigit (Nat.isDigit_of_mem_toDigits (by omega) (by omega) hc)

theorem isPrintable_intToString (n : ℤ) : ∀ c ∈ (toString n).toList, IsPrintable c := by
  change ∀ c ∈ n.repr.toList, IsPrintable c
  rw [Int.repr_eq_if]
  split
  · exact isPrintable_natRepr _
  · intro c hc
    rw [String.toList_append] at hc
    rcases List.mem_append.mp hc with hc | hc
    · rw [List.mem_singleton.mp hc]
      decide
    · exact isPrintable_natRepr _ c hc

/-! ### The headers of a call -/

theorem AuthPayload.isPrintable_of_signText {key : SecretKey} {message σ : String}
    (h : key.signText message = .ok σ) : ∀ c ∈ σ.toList, IsPrintable c := by
  obtain ⟨bs, -, rfl⟩ := map_eq_ok.mp h
  rw [String.toList_ofList]
  exact Base64.isPrintable_encode bs

/-- The headers of a payload pass the check where its identity and its signature do. -/
theorem AuthPayload.mapM_checkHeader_headers {identity : AuthIdentity} {body : Bytes}
    {bytes : Bytes.Sized 32} {time : ℤ} {σ : String}
    (hidentity : checkHeader identity.header = .ok identity.header)
    (hσ : ∀ c ∈ σ.toList, IsPrintable c) :
    (AuthPayload.headers ⟨identity, hashBody body, nonceText bytes, time, σ⟩).mapM checkHeader =
      .ok (AuthPayload.headers ⟨identity, hashBody body, nonceText bytes, time, σ⟩) := by
  have hhash : checkHeader (hashHeader, hashBody body) = .ok (hashHeader, hashBody body) :=
    checkHeader_of_isPrintable (by
      rw [hashBody, String.toList_ofList]
      exact Hex.isPrintable_encode _)
  have hnonce : checkHeader (nonceHeader, nonceText bytes) = .ok (nonceHeader, nonceText bytes) :=
    checkHeader_of_isPrintable (by
      rw [nonceText, String.toList_ofList]
      exact Hex.isPrintable_encode _)
  have htime : checkHeader (timeHeader, toString time) = .ok (timeHeader, toString time) :=
    checkHeader_of_isPrintable (isPrintable_intToString time)
  have hsignature : checkHeader (signatureHeader, σ) = .ok (signatureHeader, σ) :=
    checkHeader_of_isPrintable hσ
  simp only [AuthPayload.headers, List.mapM_cons, List.mapM_nil, hidentity, hhash, hnonce, htime,
    hsignature]
  rfl

namespace Authenticator

variable {a : Authenticator} {body : Bytes} {moment : Moment}

/-- **A call writes what it issues**: the check of the values never refuses any. -/
theorem fields_eq_ok {fields : List (String × String)} :
    a.fields body moment = .ok fields ↔ a.Issues body moment fields := by
  refine ⟨issues_of_fields, fun h => ?_⟩
  cases h with
  | noAuth => rfl
  | publicKeyOnly =>
    rename_i key
    have hkey : checkHeader (xpubHeader, key.text) = .ok (xpubHeader, key.text) :=
      checkHeader_of_isPrintable (Xpub.isPrintable_text key)
    rw [fields, List.mapM_cons, hkey]
    rfl
  | accessKey hp =>
    rename_i key p
    refine bind_eq_ok.mpr ⟨p, mapError_eq_ok.mpr hp, ?_⟩
    obtain ⟨bytes, σ, -, hσ, rfl⟩ := AuthPayload.forAccessKey_eq_ok.mp hp
    refine AuthPayload.mapM_checkHeader_headers ?_ (AuthPayload.isPrintable_of_signText hσ)
    refine checkHeader_of_isPrintable ?_
    rw [SecretKey.publicText, String.toList_ofList]
    exact Hex.isPrintable_encode _
  | extendedKey hp =>
    rename_i master p
    refine bind_eq_ok.mpr ⟨p, mapError_eq_ok.mpr hp, ?_⟩
    obtain ⟨bytes, child, σ, -, -, hσ, rfl⟩ := AuthPayload.forXpriv_eq_ok.mp hp
    exact AuthPayload.mapM_checkHeader_headers
      (checkHeader_of_isPrintable (Xpub.isPrintable_text _))
      (AuthPayload.isPrintable_of_signText hσ)

/-- **The map with the headers of authentication** holds what a call issues, and there is none where
a call issues nothing. -/
theorem append_eq_ok {h h' : HeaderMap} :
    a.append h body moment = .ok h' ↔
      ∃ fields, a.Issues body moment fields ∧ h.insertAll fields = h' := by
  simp only [append_eq_ok_iff_write, write_eq_ok, fields_eq_ok]

end Authenticator

end WalletApi
