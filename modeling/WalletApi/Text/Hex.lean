import WalletApi.Text.Utf8

/-!
# Hexadecimal text

A byte is written as two lowercase hexadecimal digits, the high half first. Reading admits both
cases and says what is wrong with a text that is no such writing: `Hex.decode` works on the bytes
of the text, so the position it reports counts bytes. Main statements:

* `Hex.length_encode`: a byte string of length `n` is written with `2 * n` digits;
* `Hex.decode_encode`: reading a written byte string gives it back.
-/

namespace WalletApi.Hex

/-- The digit of a number below sixteen, in lowercase. -/
def digit (n : Nat) : Char :=
  if n < 10 then Char.ofNat (48 + n) else Char.ofNat (87 + n)

/-- The number of a digit, in either case. -/
def value? (c : Char) : Option Nat :=
  if '0' ≤ c ∧ c ≤ '9' then some (c.toNat - 48)
  else if 'a' ≤ c ∧ c ≤ 'f' then some (c.toNat - 87)
  else if 'A' ≤ c ∧ c ≤ 'F' then some (c.toNat - 55)
  else none

/-- The two digits of each byte, in order. -/
def encode (bs : Bytes) : List Char :=
  bs.flatMap fun b => [digit (b.toNat / 16), digit (b.toNat % 16)]

/-- Why a text writes no byte string in hexadecimal. -/
inductive Fault
  /-- The text has an odd number of bytes. -/
  | oddLength
  /-- The byte at this position is no digit. -/
  | notDigit (byte : UInt8) (position : Nat)
deriving DecidableEq

/-- The number of a digit given as a byte. -/
def byteValue? (b : UInt8) : Option Nat := value? (Char.ofNat b.toNat)

/-- Reads digits two by two, counting positions from `position`. -/
def decodeFrom (position : Nat) : Bytes → Except Fault Bytes
  | [] => .ok []
  | [_] => .error .oddLength
  | a :: b :: rest =>
    match byteValue? a with
    | none => .error (.notDigit a position)
    | some high =>
      match byteValue? b with
      | none => .error (.notDigit b (position + 1))
      | some low => (decodeFrom (position + 2) rest).map (UInt8.ofNat (16 * high + low) :: ·)

/-- The byte string that a text writes in hexadecimal. An odd length is reported before any byte
that is no digit. -/
def decode (text : Bytes) : Except Fault Bytes :=
  if text.length % 2 = 1 then .error .oddLength else decodeFrom 0 text

@[simp] theorem encode_nil : encode [] = [] := rfl

theorem encode_cons (b : UInt8) (bs : Bytes) :
    encode (b :: bs) = digit (b.toNat / 16) :: digit (b.toNat % 16) :: encode bs := by
  simp [encode]

@[simp] theorem length_encode (bs : Bytes) : (encode bs).length = 2 * bs.length := by
  induction bs with
  | nil => rfl
  | cons b bs ih => simp only [encode_cons, List.length_cons, ih]; omega

/-- A digit is one byte of text, and that byte has the digit's number. -/
theorem byteValue?_digit : ∀ n : Fin 16,
    ∃ b : UInt8, String.utf8EncodeChar (digit n.val) = [b] ∧ byteValue? b = some n.val := by
  intro n
  refine ⟨UInt8.ofNat (digit n.val).toNat, ?_⟩
  revert n
  decide +kernel

theorem decodeFrom_encode (bs : Bytes) (position : Nat) :
    decodeFrom position (Utf8.encode (encode bs)) = .ok bs := by
  induction bs generalizing position with
  | nil => rfl
  | cons b bs ih =>
    have hb := b.toNat_lt
    obtain ⟨high, hhigh, vhigh⟩ := byteValue?_digit ⟨b.toNat / 16, by omega⟩
    obtain ⟨low, hlow, vlow⟩ := byteValue?_digit ⟨b.toNat % 16, by omega⟩
    have hsum : 16 * (b.toNat / 16) + b.toNat % 16 = b.toNat := by omega
    simp only [encode_cons, Utf8.encode_cons, hhigh, hlow, List.cons_append, List.nil_append,
      decodeFrom, vhigh, vlow, hsum, ih, Except.map, UInt8.ofNat_toNat]

theorem length_utf8_encode (bs : Bytes) : (Utf8.encode (encode bs)).length = 2 * bs.length := by
  induction bs with
  | nil => rfl
  | cons b bs ih =>
    have hb := b.toNat_lt
    obtain ⟨high, hhigh, -⟩ := byteValue?_digit ⟨b.toNat / 16, by omega⟩
    obtain ⟨low, hlow, -⟩ := byteValue?_digit ⟨b.toNat % 16, by omega⟩
    simp only [encode_cons, Utf8.encode_cons, hhigh, hlow, List.cons_append, List.nil_append,
      List.length_cons, ih]
    omega

theorem decode_encode (bs : Bytes) : decode (Utf8.encode (encode bs)) = .ok bs := by
  have h : ¬ (2 * bs.length) % 2 = 1 := by omega
  rw [decode, length_utf8_encode, if_neg h, decodeFrom_encode]

end WalletApi.Hex
