import WalletApi.Auth.Error
import WalletApi.Proofs.Key.Width
import WalletApi.Proofs.Text.Hex

/-!
# The two ways to write a secret key

A secret key is written as a wallet import text (`WalletApi.SecretKey.IsImport`) or with sixty-four
hexadecimal digits (`WalletApi.SecretKey.IsDigits`). Either way is read exactly where it is used,
and no text is both: an import text has at most thirty-eight bytes, and these take at most fifty-two
digits in base fifty-eight (`WalletApi.SecretKey.length_le_of_isImport`). So it does not matter
which way is tried first.

`WalletApi.SecretKey.read_grammar` puts this together: what is read and as which key, that each key
can be written in all of these ways, and that any other text is refused with the reasons of both.
-/

namespace WalletApi

namespace SecretKey

/-- **The wallet import texts of a key**: in checked Base58 a byte for one of the networks, the
thirty-two bytes of the key, and at most one byte more. -/
def IsImport (k : SecretKey) (cs : List Char) : Prop :=
  ∃ version ∈ importVersions, ∃ flag : Bytes, flag.length ≤ 1 ∧
    cs = Base58.encodeChecked (version :: k.bytes ++ flag)

/-- **The hexadecimal texts of a key**: sixty-four digits in either case that write its number. -/
def IsDigits (k : SecretKey) (cs : List Char) : Prop :=
  cs.length = 64 ∧ (∀ c ∈ cs, (Hex.value? c).isSome = true) ∧
    Base58.valueIn 16 (cs.map Hex.number) = k.value

variable {k : SecretKey} {cs : List Char}

/-! ### Each way is read -/

/-- **The import texts are read, and nothing else is.** -/
theorem ofImportText_eq_ok_iff : ofImportText cs = .ok k ↔ k.IsImport cs := by
  constructor
  · intro h
    rw [ofImportText] at h
    split at h
    · exact nomatch h
    · next bs hbs =>
      split at h
      · next hlen =>
        split at h
        · next hversion =>
          split at h
          · next key hkey =>
            obtain rfl := Except.ok.inj h
            match bs, hlen with
            | version :: rest, hlen =>
              rw [List.drop_one, List.tail_cons, ofBytes?_eq_some_iff] at hkey
              refine ⟨version, hversion, rest.drop 32, ?_, ?_⟩
              · rw [List.length_cons] at hlen
                rw [List.length_drop]
                omega
              · rw [← hkey, List.cons_append, List.take_append_drop,
                  Base58.decodeChecked?_eq_some_iff.mp hbs]
          · exact nomatch h
        · exact nomatch h
      · exact nomatch h
  · rintro ⟨version, hversion, flag, hflag, rfl⟩
    have hlen : (version :: k.bytes ++ flag).length = 33 ∨
        (version :: k.bytes ++ flag).length = 34 := by
      rw [List.cons_append, List.length_cons, List.length_append, k.length_bytes]
      omega
    have hkey : ((version :: k.bytes ++ flag).drop 1).take 32 = k.bytes :=
      List.take_left' k.length_bytes
    rw [ofImportText, Base58.decodeChecked?_encodeChecked]
    simp only [if_pos hlen, hkey, ofBytes?_bytes]
    exact if_pos hversion

/-- **Sixty-four digits are read**, and nothing else is. -/
theorem ofDigits_eq_ok_iff : ofDigits cs = .ok k ↔ k.IsDigits cs := by
  constructor
  · intro h
    rw [ofDigits] at h
    split at h
    · cases h
    · next bs hbs =>
      split at h
      · next key hkey =>
        obtain rfl := Except.ok.inj h
        obtain ⟨hdigits, hlen, hvalue⟩ := Hex.decode_eq_ok_iff.mp hbs
        rw [ofBytes?] at hkey
        split at hkey
        · next hwidth =>
          rw [ofNat?_eq_some_iff] at hkey
          exact ⟨by omega, hdigits, hvalue.trans hkey⟩
        · cases hkey
      · cases h
  · rintro ⟨hlen, hdigits, hvalue⟩
    have hlt : k.value < Bytes.capacity 32 := k.lt.trans (by decide)
    have hbytes : k.bytes.toNat = k.value := by
      rw [bytes, Bytes.toNat_ofNat, Nat.mod_eq_of_lt hlt]
    have hread : Hex.decode (Utf8.encode cs) = .ok k.bytes :=
      Hex.decode_eq_ok_iff.mpr ⟨hdigits, by rw [hlen, k.length_bytes], hvalue.trans hbytes.symm⟩
    rw [ofDigits, hread]
    simp only [ofBytes?_bytes]

/-! ### No text is both -/

/-- An import text has at most fifty-two digits. -/
theorem length_le_of_isImport (h : k.IsImport cs) : cs.length ≤ 52 := by
  obtain ⟨version, -, flag, hflag, rfl⟩ := h
  have hlen : (version :: k.bytes ++ flag ++
      Base58.checksum (version :: k.bytes ++ flag)).length ≤ 38 := by
    rw [List.length_append, Base58.length_checksum, List.cons_append, List.length_cons,
      List.length_append, k.length_bytes]
    omega
  refine Base58.length_encode_le ?_
  calc 256 ^ (version :: k.bytes ++ flag ++
        Base58.checksum (version :: k.bytes ++ flag)).length
      ≤ 256 ^ 38 := Nat.pow_le_pow_right (by omega) hlen
    _ ≤ 58 ^ 52 := by norm_num

/-- **No text is written in both ways.** -/
theorem not_isDigits_of_isImport {k' : SecretKey} (h : k.IsImport cs) : ¬ k'.IsDigits cs := by
  intro hdigits
  have hle := length_le_of_isImport h
  rw [hdigits.1] at hle
  omega

/-! ### Texts -/

theorem trim_of_isImport (h : k.IsImport cs) : Text.trim cs = cs := by
  obtain ⟨version, -, flag, -, rfl⟩ := h
  exact Base58.trim_encode _

theorem trim_of_isDigits (h : k.IsDigits cs) : Text.trim cs = cs :=
  Text.trim_of_forall fun c hc => Hex.isBlank_of_value? (h.2.1 c hc)

/-- **A text is read as the key that it writes**, blanks at both ends aside. -/
theorem read_eq_ok_iff {s : String} :
    read s = .ok k ↔ k.IsImport (Text.trim s.toList) ∨ k.IsDigits (Text.trim s.toList) := by
  rw [read, ofText]
  cases himport : ofImportText (Text.trim s.toList) with
  | ok key =>
    -- What is read as an import text is none of digits, so the second way is not missed.
    have hkey := ofImportText_eq_ok_iff.mp himport
    rw [or_iff_left (not_isDigits_of_isImport hkey), ← ofImportText_eq_ok_iff, himport]
    simp only [Except.ok.injEq]
  | error importFault =>
    have hnone : ¬ k.IsImport (Text.trim s.toList) := fun h => by
      rw [ofImportText_eq_ok_iff.mpr h] at himport
      exact nomatch himport
    rw [or_iff_right hnone, ← ofDigits_eq_ok_iff]
    cases ofDigits (Text.trim s.toList) with
    | ok key => simp only [Except.ok.injEq]
    | error digitsFault => simp only [reduceCtorEq]

/-- Each key is written in hexadecimal digits. -/
theorem isDigits_encode (k : SecretKey) : k.IsDigits (Hex.encode k.bytes) := by
  rw [← ofDigits_eq_ok_iff, ofDigits, Hex.decode_encode]
  simp only [ofBytes?_bytes]

/-- A text that writes no key is refused for the reasons that both ways give. -/
theorem exists_read_eq_error {s : String} (h : ∀ k, read s ≠ .ok k) :
    ∃ asImport asDigits, ofImportText (Text.trim s.toList) = .error asImport ∧
      ofDigits (Text.trim s.toList) = .error asDigits ∧
      read s = .error (.keyFormat (.secret asImport asDigits)) := by
  cases himport : ofImportText (Text.trim s.toList) with
  | ok key => exact absurd (read_eq_ok_iff.mpr (.inl (ofImportText_eq_ok_iff.mp himport))) (h key)
  | error asImport =>
    cases hdigits : ofDigits (Text.trim s.toList) with
    | ok key => exact absurd (read_eq_ok_iff.mpr (.inr (ofDigits_eq_ok_iff.mp hdigits))) (h key)
    | error asDigits =>
      refine ⟨asImport, asDigits, rfl, rfl, ?_⟩
      rw [read, ofText]
      simp only [himport, hdigits]

/-- **Which texts write a secret key.** A text is read as a key exactly when, blanks at both ends
aside, it is an import text of the key or writes it in hexadecimal digits. No text does both. Each
key has texts of both ways and is read from all of them. Any other text is refused, and the message
gives the reasons of both ways. -/
theorem read_grammar :
    (∀ s k, read s = .ok k ↔
      k.IsImport (Text.trim s.toList) ∨ k.IsDigits (Text.trim s.toList)) ∧
    (∀ cs (k k' : SecretKey), ¬ (k.IsImport cs ∧ k'.IsDigits cs)) ∧
    (∀ k : SecretKey, k.IsImport (Base58.encodeChecked (128 :: k.bytes)) ∧
      k.IsDigits (Hex.encode k.bytes) ∧
      ∀ cs, k.IsImport cs ∨ k.IsDigits cs → read (String.ofList cs) = .ok k) ∧
    (∀ s, (∀ k, read s ≠ .ok k) → ∃ asImport asDigits,
      ofImportText (Text.trim s.toList) = .error asImport ∧
      ofDigits (Text.trim s.toList) = .error asDigits ∧
      read s = .error (.keyFormat (.secret asImport asDigits)) ∧
      (AuthError.keyFormat (.secret asImport asDigits)).message =
        "Invalid key format: not a WIF key: " ++ asImport.message ++ "; not a hex key: "
          ++ asDigits.message) := by
  refine ⟨?_, ?_, ?_, ?_⟩
  · intro s k
    exact read_eq_ok_iff
  · rintro cs k k' ⟨himport, hdigits⟩
    exact not_isDigits_of_isImport himport hdigits
  · intro k
    refine ⟨⟨128, List.mem_cons_self, [], Nat.zero_le 1, by rw [List.append_nil]⟩,
      isDigits_encode k, fun cs h => ?_⟩
    have htrim : Text.trim cs = cs := h.elim trim_of_isImport trim_of_isDigits
    rw [read_eq_ok_iff, String.toList_ofList, htrim]
    exact h
  · intro s h
    obtain ⟨asImport, asDigits, himport, hdigits, hread⟩ := exists_read_eq_error h
    have hopening : KeyFault.opening ++ "not a WIF key: " = "Invalid key format: not a WIF key: " :=
      by decide
    have hmessage : (AuthError.keyFormat (.secret asImport asDigits)).message =
        (KeyFault.secret asImport asDigits).message := rfl
    refine ⟨asImport, asDigits, himport, hdigits, hread, ?_⟩
    rw [hmessage, KeyFault.message, hopening]

end SecretKey

end WalletApi
