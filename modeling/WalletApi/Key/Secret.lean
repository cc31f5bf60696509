import WalletApi.Curve.Point
import WalletApi.Text.Base58
import WalletApi.Text.Blank
import WalletApi.Text.Hex
import WalletApi.Text.Quoted

/-!
# Secret and public keys

A secret key is a number strictly between zero and the order of the curve's group, and its public
key is that multiple of the base point. There are two ways to write a secret key. A wallet import
text is Base58 with a checksum and names the network; the other way is sixty-four hexadecimal
digits. `SecretKey.ofText` tries the first and then the second, and when both fail it keeps both
reasons.
-/

namespace WalletApi

/-- **A public key**: a point of the curve other than the point at infinity. -/
@[ext]
structure PublicKey where
  x : Nat
  y : Nat
  onCurve : OnCurve x y

namespace PublicKey

instance : DecidableEq PublicKey := fun a b =>
  decidable_of_iff (a.x = b.x ∧ a.y = b.y) PublicKey.ext_iff.symm

/-- The key as a point. -/
def point (k : PublicKey) : Point := .affine k.x k.y k.onCurve

/-- The key that a point is; the point at infinity is none. -/
def ofPoint? : Point → Option PublicKey
  | .infinity => none
  | .affine x y h => some ⟨x, y, h⟩

/-- The base point as a key. -/
def generator : PublicKey := ⟨Point.generatorX, Point.generatorY, Point.onCurve_generator⟩

/-- The thirty-three bytes of a key: one that tells an even ordinate from an odd one, then the
abscissa. -/
def compressed (k : PublicKey) : Bytes :=
  (if k.y % 2 = 0 then 2 else 3) :: Bytes.ofNat 32 k.x

/-- The key that thirty-three or sixty-five bytes write. The longer form holds both coordinates,
after a byte that may also repeat what the shorter form says about the ordinate. -/
def ofBytes? (bs : Bytes) : Option PublicKey :=
  match bs with
  | [] => none
  | tag :: coordinates =>
    let x := Bytes.toNat (coordinates.take 32)
    if coordinates.length = 32 then
      if tag = 2 then (Point.lift? x false).bind ofPoint?
      else if tag = 3 then (Point.lift? x true).bind ofPoint?
      else none
    else if coordinates.length = 64 then
      let y := Bytes.toNat (coordinates.drop 32)
      if tag = 4 || (tag = 6 && y % 2 == 0) || (tag = 7 && y % 2 == 1) then
        ofPoint? (Point.ofCoordinates x y)
      else none
    else none

@[simp] theorem length_compressed (k : PublicKey) : k.compressed.length = 33 := by
  simp [compressed]

@[simp] theorem ofPoint?_point (k : PublicKey) : ofPoint? k.point = some k := rfl

end PublicKey

/-- **A secret key.** -/
structure SecretKey where
  value : Nat
  pos : 0 < value
  lt : value < groupOrder
deriving DecidableEq

namespace SecretKey

/-- The key that a number is, if it lies in range. -/
def ofNat? (n : Nat) : Option SecretKey :=
  if h : 0 < n ∧ n < groupOrder then some ⟨n, h.1, h.2⟩ else none

/-- The key that a byte string writes: thirty-two bytes, in range. -/
def ofBytes? (bs : Bytes) : Option SecretKey :=
  if bs.length = 32 then ofNat? (Bytes.toNat bs) else none

/-- The thirty-two bytes of a key. -/
def bytes (k : SecretKey) : Bytes := Bytes.ofNat 32 k.value

@[simp] theorem length_bytes (k : SecretKey) : k.bytes.length = 32 := by simp [bytes]

theorem ofNat?_eq_some_iff {n : Nat} {k : SecretKey} : ofNat? n = some k ↔ n = k.value := by
  rw [ofNat?]
  constructor
  · intro h
    split at h
    · exact congrArg value (Option.some.inj h)
    · exact nomatch h
  · rintro rfl
    rw [dif_pos ⟨k.pos, k.lt⟩]

theorem ofBytes?_bytes (k : SecretKey) : ofBytes? k.bytes = some k := by
  have hlt : k.value < Bytes.capacity 32 := Nat.lt_trans k.lt (by decide)
  have hval : Bytes.toNat k.bytes = k.value := by
    rw [bytes, Bytes.toNat_ofNat, Nat.mod_eq_of_lt hlt]
  rw [ofBytes?, if_pos (length_bytes k), hval, ofNat?_eq_some_iff]

/-- The byte string of a key is the only one that is read as this key. -/
theorem ofBytes?_eq_some_iff {bs : Bytes} {k : SecretKey} :
    ofBytes? bs = some k ↔ bs = k.bytes := by
  constructor
  · intro h
    rw [ofBytes?] at h
    split at h
    · next hlen => rw [bytes, ← ofNat?_eq_some_iff.mp h, Bytes.ofNat_toNat hlen]
    · exact nomatch h
  · intro h
    rw [h, ofBytes?_bytes]

/-- The public key. A secret key lies below the order of the base point, so its multiple is never
the point at infinity; the second case completes the definition and is not met. -/
def publicKey (k : SecretKey) : PublicKey :=
  match Point.smul k.value Point.generator with
  | .affine x y h => ⟨x, y, h⟩
  | .infinity => PublicKey.generator

/-! ### Reading a secret key -/

/-- Why a text is no wallet import text. -/
inductive ImportFault
  /-- A character is no digit of the alphabet, or the checksum does not fit. -/
  | base58
  /-- There are neither thirty-three nor thirty-four bytes. -/
  | length
  /-- The first byte names no network. -/
  | version
  /-- The number is out of range. -/
  | range
deriving DecidableEq

/-- Why a text writes no secret key in hexadecimal. -/
inductive DigitsFault
  /-- The text writes no byte string. -/
  | hex (fault : Hex.Fault)
  /-- The byte string is no key. -/
  | range (length : Nat)
deriving DecidableEq

/-- The wording of an import fault. -/
def ImportFault.message : ImportFault → String
  | .base58 => "invalid base58"
  | .length => "decoded base58 data was an invalid length"
  | .version => "decoded base58 data contained an invalid address version btye"
  | .range => "private key validation failed"

/-- The wording of a digits fault. A byte that is no digit is named as the character with its
number. -/
def DigitsFault.message : DigitsFault → String
  | .hex .oddLength => "Odd number of digits"
  | .hex (.notDigit byte position) =>
    "Invalid character " ++ Text.quoteChar (Char.ofNat byte.toNat) ++ " at position "
      ++ toString position
  | .range length => "malformed or out-of-range secret key (" ++ toString length ++ " bytes)"

/-- The byte in front of the key of either network. -/
def importVersions : List UInt8 := [128, 239]

/-- The key that a wallet import text writes. What follows the thirty-two bytes of the key tells how
its public key was meant to be written and is not looked at. -/
def ofImportText (cs : List Char) : Except ImportFault SecretKey :=
  match Base58.decodeChecked? cs with
  | none => .error .base58
  | some bs =>
    if bs.length = 33 ∨ bs.length = 34 then
      if bs.headD 0 ∈ importVersions then
        match ofBytes? ((bs.drop 1).take 32) with
        | some k => .ok k
        | none => .error .range
      else .error .version
    else .error .length

/-- The key that a text writes in hexadecimal. -/
def ofDigits (cs : List Char) : Except DigitsFault SecretKey :=
  match Hex.decode (Utf8.encode cs) with
  | .error fault => .error (.hex fault)
  | .ok bs =>
    match ofBytes? bs with
    | some k => .ok k
    | none => .error (.range bs.length)

/-- **The key that a text writes**, in either way, blanks at both ends aside. -/
def ofText (text : String) : Except (ImportFault × DigitsFault) SecretKey :=
  let cs := Text.trim text.toList
  match ofImportText cs with
  | .ok k => .ok k
  | .error importFault =>
    match ofDigits cs with
    | .ok k => .ok k
    | .error digitsFault => .error (importFault, digitsFault)

end SecretKey

end WalletApi
