import WalletApi.Hash.Hmac
import WalletApi.Key.Secret

/-!
# Recoverable signatures

A signature of a digest is a pair of numbers below the order of the group. A verifier who also knows
which of up to four points the signer's nonce point was can compute the signer's public key from the
signature. Nonces are drawn from the key and the digest alone, by a chain of keyed digests, so a
digest has one signature per key; of the two signatures that differ in the sign of `s` the one with
the smaller `s` is taken.
-/

namespace WalletApi

/-- **A recoverable signature.** The nonce point has an odd ordinate, or an abscissa not below the
order of the group, where the flags say so. -/
structure Signature where
  r : Nat
  s : Nat
  odd : Bool
  wrapped : Bool
deriving DecidableEq

namespace Signature

/-- The digest as a number modulo the order of the group. -/
def scalar (digest : Bytes) : Nat := Bytes.toNat digest % groupOrder

/-- The state from which nonces are drawn: a key of the keyed digest and the last value drawn. -/
structure NonceSource where
  key : Bytes
  value : Bytes

/-- The source that a key and a digest determine. -/
def NonceSource.start (k : SecretKey) (digest : Bytes) : NonceSource :=
  let seed := k.bytes ++ Bytes.ofNat 32 (scalar digest)
  let v := List.replicate 32 1
  let key := Hmac.sha256 (List.replicate 32 0) (v ++ 0 :: seed)
  let v := Hmac.sha256 key v
  let key := Hmac.sha256 key (v ++ 1 :: seed)
  ⟨key, Hmac.sha256 key v⟩

/-- The nonce that a source draws; its value is the nonce's bytes. -/
def NonceSource.draw (g : NonceSource) : NonceSource := ⟨g.key, Hmac.sha256 g.key g.value⟩

/-- The source after a nonce that could not be used. -/
def NonceSource.reject (g : NonceSource) : NonceSource :=
  let key := Hmac.sha256 g.key (g.value ++ [0])
  ⟨key, Hmac.sha256 key g.value⟩

/-- The signature of a number with a given nonce, if the nonce gives one. -/
def withNonce? (k : SecretKey) (z nonce : Nat) : Option Signature :=
  match Point.smul nonce Point.generator with
  | .infinity => none
  | .affine x y _ =>
    let r := x % groupOrder
    let s := Modular.inverse groupOrder nonce * (z + r * k.value) % groupOrder
    if r = 0 ∨ s = 0 then none
    else
      let odd := y % 2 == 1
      let wrapped := groupOrder ≤ x
      if groupOrder / 2 < s then some ⟨r, groupOrder - s, !odd, wrapped⟩
      else some ⟨r, s, odd, wrapped⟩

/-- The first signature that at most `tries` nonces give. -/
def search? (k : SecretKey) (z : Nat) : Nat → NonceSource → Option Signature
  | 0, _ => none
  | tries + 1, g =>
    let g := g.draw
    let found :=
      match SecretKey.ofBytes? g.value with
      | none => none
      | some nonce => withNonce? k z nonce.value
    match found with
    | some signature => some signature
    | none => search? k z tries g.reject

/-- The nonces that a signer tries before giving up. One of them fails about once in `2 ^ 127`. -/
def nonceTries : Nat := 64

/-- **The signature of a digest.** -/
def sign? (k : SecretKey) (digest : Bytes) : Option Signature :=
  search? k (scalar digest) nonceTries (NonceSource.start k digest)

/-- The nonce point of a signature. -/
def noncePoint? (σ : Signature) : Option Point :=
  if σ.wrapped then
    if σ.r + groupOrder < fieldPrime then Point.lift? (σ.r + groupOrder) σ.odd else none
  else Point.lift? σ.r σ.odd

/-- **The public key of the signer**, if a key has made this signature of the digest. -/
def recover? (σ : Signature) (digest : Bytes) : Option PublicKey :=
  if σ.r = 0 ∨ σ.s = 0 then none
  else
    match σ.noncePoint? with
    | none => none
    | some nonce =>
      let w := Modular.inverse groupOrder σ.r
      let fromNonce := Point.smul (w * σ.s % groupOrder) nonce
      let fromDigest := Point.smul (w * scalar digest % groupOrder) Point.generator
      PublicKey.ofPoint? (fromNonce.add fromDigest.neg)

/-! ### Sixty-five bytes -/

/-- The first byte of a signature that no flag raises: it stands for a signer whose public key is
written in compressed form. -/
def compactBase : Nat := 31

/-- The flags as a number from zero to three. -/
def flags (σ : Signature) : Nat := (if σ.odd then 1 else 0) + (if σ.wrapped then 2 else 0)

/-- The compact form: a byte for the flags and thirty-two bytes for each number. -/
def compact (σ : Signature) : Bytes :=
  UInt8.ofNat (compactBase + σ.flags) :: (Bytes.ofNat 32 σ.r ++ Bytes.ofNat 32 σ.s)

/-- The signature in compact form. The flags are the lowest two bits of what the first byte exceeds
`27` by; the other bits do not matter. -/
def ofCompact? (bs : Bytes) : Option Signature :=
  match bs with
  | [] => none
  | head :: numbers =>
    let r := Bytes.toNat (numbers.take 32)
    let s := Bytes.toNat (numbers.drop 32)
    let flags := (head.toNat - 27) % 4
    if numbers.length = 64 ∧ 27 ≤ head.toNat ∧ r < groupOrder ∧ s < groupOrder then
      some ⟨r, s, flags % 2 == 1, 2 ≤ flags⟩
    else none

@[simp] theorem length_compact (σ : Signature) : σ.compact.length = 65 := by
  simp [compact]

end Signature

end WalletApi
