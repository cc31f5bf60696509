import WalletApi.Curve.Signature
import WalletApi.Text.Base64

/-!
# Signed messages

A text is signed under a magic line that no other protocol uses, so a signature of a message can
stand for nothing else. The digest is the doubled SHA-256 of the magic line, the length of the text
and the text; the signature is handed out in compact form and written in Base64.
-/

namespace WalletApi

namespace SignedMessage

/-- The line in front of every message, after a byte for its own length. -/
def magic : Bytes := 0x18 :: Utf8.encode "Bitcoin Signed Message:\n".toList

/-- A length: one byte below `0xfd`, and else a byte that tells the width followed by the number,
least significant byte first. -/
def length (n : Nat) : Bytes :=
  if n < 0xfd then [UInt8.ofNat n]
  else if n < 0x10000 then 0xfd :: (Bytes.ofNat 2 n).reverse
  else if n < 0x100000000 then 0xfe :: (Bytes.ofNat 4 n).reverse
  else 0xff :: (Bytes.ofNat 8 n).reverse

/-- The digest that is signed for a text. -/
def digest (text : String) : Bytes :=
  let bytes := Utf8.encode text.toList
  Sha256.double (magic ++ length bytes.length ++ bytes)

end SignedMessage

/-- Why a message is left unsigned. -/
inductive SigningFault
  /-- No nonce that was tried gave a signature. -/
  | noSignature
  /-- The signature does not lead back to the key. -/
  | mismatch
deriving DecidableEq

/-- The wording of a fault. -/
def SigningFault.message : SigningFault → String
  | .noSignature => "no usable nonce"
  | .mismatch => "signature does not recover to the signing key"

/-- What a signer hands out for a signature that it has made: the compact form, after the key has
been recovered from it. -/
def SecretKey.release (k : SecretKey) (digest : Bytes) :
    Option Signature → Except SigningFault Bytes
  | none => .error .noSignature
  | some σ => if σ.recover? digest = some k.publicKey then .ok σ.compact else .error .mismatch

/-- **The signature of a text**, in compact form. -/
def SecretKey.sign (k : SecretKey) (text : String) : Except SigningFault Bytes :=
  k.release (SignedMessage.digest text) (Signature.sign? k (SignedMessage.digest text))

/-- The signature of a text, written in Base64. -/
def SecretKey.signText (k : SecretKey) (text : String) : Except SigningFault String :=
  (k.sign text).map fun bs => String.ofList (Base64.encode bs)

/-- **The written signature is one of the text by this key.** -/
def PublicKey.verifies (k : PublicKey) (text signature : String) : Bool :=
  match (Base64.decode? signature.toList).bind Signature.ofCompact? with
  | none => false
  | some σ => σ.recover? (SignedMessage.digest text) = some k

end WalletApi
