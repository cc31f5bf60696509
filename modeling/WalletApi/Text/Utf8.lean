import WalletApi.Bytes

/-!
# Text as bytes

Text is hashed, signed and sent as UTF-8. `Utf8.encode` writes it and `Utf8.decode?` reads it back,
refusing every byte string that no text writes. Main statement: `Utf8.decode?_encode`.
-/

namespace WalletApi.Utf8

/-- The bytes of a text. -/
def encode (cs : List Char) : Bytes := cs.flatMap String.utf8EncodeChar

/-- The text that a byte string writes, if it writes one. -/
def decode? (bs : Bytes) : Option (List Char) :=
  (ByteArray.utf8Decode? bs.toByteArray).map Array.toList

@[simp] theorem encode_nil : encode [] = [] := rfl

@[simp] theorem encode_cons (c : Char) (cs : List Char) :
    encode (c :: cs) = String.utf8EncodeChar c ++ encode cs := by
  simp [encode]

@[simp] theorem encode_append (s t : List Char) : encode (s ++ t) = encode s ++ encode t := by
  simp [encode]

theorem decode?_encode (cs : List Char) : decode? (encode cs) = some cs := by
  have h := List.utf8Decode?_utf8Encode (l := cs)
  rw [List.utf8Encode] at h
  simp [decode?, encode, h]

end WalletApi.Utf8
