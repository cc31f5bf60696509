import WalletApi.Text.Utf8

/-!
# Percent encoding

A byte that cannot stand as it is in a part of an address is written as a percent sign and two
uppercase hexadecimal digits. Each part has its own set of characters that are encoded; characters
beyond ASCII always are, byte by byte. Main statement: `Percent.decode_encode`, a text whose percent
signs are encoded too is given back by decoding.
-/

namespace WalletApi.Percent

/-- The digit of a number below sixteen, in uppercase. -/
def digit (n : Nat) : Char :=
  if n < 10 then Char.ofNat (48 + n) else Char.ofNat (55 + n)

/-- The number of a digit, in either case. -/
def value? (c : Char) : Option Nat :=
  if '0' ≤ c ∧ c ≤ '9' then some (c.toNat - 48)
  else if 'a' ≤ c ∧ c ≤ 'f' then some (c.toNat - 87)
  else if 'A' ≤ c ∧ c ≤ 'F' then some (c.toNat - 55)
  else none

/-- A byte in encoded form. -/
def byte (b : UInt8) : List Char := ['%', digit (b.toNat / 16), digit (b.toNat % 16)]

/-- A character of a part, encoded when it is in the set or beyond ASCII. -/
def encodeChar (set : Char → Bool) (c : Char) : List Char :=
  if c.toNat < 0x80 && !set c then [c] else (String.utf8EncodeChar c).flatMap byte

/-- A text with the characters of a set encoded. -/
def encode (set : Char → Bool) (cs : List Char) : List Char := cs.flatMap (encodeChar set)

/-- The bytes of a text with encoded bytes decoded; a percent sign without two digits stands for
itself. -/
def decode : List Char → Bytes
  | '%' :: a :: b :: rest =>
    match value? a, value? b with
    | some high, some low => UInt8.ofNat (16 * high + low) :: decode rest
    | _, _ => 0x25 :: decode (a :: b :: rest)
  | c :: rest => String.utf8EncodeChar c ++ decode rest
  | [] => []

/-! ### Sets of characters -/

/-- The control characters of ASCII. -/
def isControl (c : Char) : Bool := c.toNat < 0x20 || c.toNat == 0x7f

/-- What is encoded in a fragment. -/
def fragmentSet (c : Char) : Bool :=
  isControl c || [' ', '"', '<', '>', '\x60'].contains c

/-- What is encoded in a query. -/
def querySet (c : Char) : Bool := isControl c || [' ', '"', '#', '<', '>'].contains c

/-- What is encoded in a query of a scheme that has a server. -/
def specialQuerySet (c : Char) : Bool := querySet c || c == '\''

/-- What is encoded in a path. -/
def pathSet (c : Char) : Bool :=
  querySet c || ['?', '\x60', '\x7b', '\x7d'].contains c

/-- What is encoded in the name and the password of a user. -/
def userSet (c : Char) : Bool :=
  pathSet c || ['/', ':', ';', '=', '@', '[', '\\', ']', '^', '|'].contains c

theorem value?_digit : ∀ n : Fin 16, value? (digit n.val) = some n.val := by decide +kernel

theorem decode_byte_append (b : UInt8) (rest : List Char) :
    decode (byte b ++ rest) = b :: decode rest := by
  have hb := b.toNat_lt
  have h₁ := value?_digit ⟨b.toNat / 16, by omega⟩
  have h₂ := value?_digit ⟨b.toNat % 16, by omega⟩
  have hs : 16 * (b.toNat / 16) + b.toNat % 16 = b.toNat := by omega
  simp only at h₁ h₂
  simp only [byte, List.cons_append, List.nil_append, decode, h₁, h₂, hs, UInt8.ofNat_toNat]

theorem decode_bytes_append (bs : Bytes) (rest : List Char) :
    decode (bs.flatMap byte ++ rest) = bs ++ decode rest := by
  induction bs with
  | nil => rfl
  | cons b bs ih => simp [List.append_assoc, decode_byte_append, ih]

theorem decode_cons_of_ne {c : Char} (h : c ≠ '%') (rest : List Char) :
    decode (c :: rest) = String.utf8EncodeChar c ++ decode rest := by
  rw [decode.eq_def]
  split <;> simp_all

/-- Decoding gives back a text of which at least the percent signs were encoded. -/
theorem decode_encode {set : Char → Bool} (h : set '%' = true) (cs : List Char) :
    decode (encode set cs) = Utf8.encode cs := by
  induction cs with
  | nil => rfl
  | cons c cs ih =>
    have ih' : decode (cs.flatMap (encodeChar set)) = Utf8.encode cs := ih
    rw [encode, List.flatMap_cons, encodeChar]
    split
    · next hc =>
      have hne : c ≠ '%' := by rintro rfl; simp [h] at hc
      rw [List.cons_append, List.nil_append, decode_cons_of_ne hne, ih', Utf8.encode_cons]
    · rw [decode_bytes_append, ih', Utf8.encode_cons]

end WalletApi.Percent
