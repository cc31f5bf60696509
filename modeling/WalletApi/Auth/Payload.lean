import WalletApi.Auth.Error

/-!
# What a signed request proves

A signed request names its sender, the digest of its body, a nonce and the time, and carries a
signature of these four written one after the other. A client with an access key signs with that key
and names its public key; a client with an extended key names the master's public half and signs
with the child that the nonce addresses.
-/

namespace WalletApi

/-- What a request takes from its surroundings: thirty-two random bytes, or the reason why there are
none, and the time in milliseconds. -/
structure Moment where
  random : Except String (Bytes.Sized 32)
  time : Int

/-- The public name that a request is signed under. -/
inductive AuthIdentity
  /-- The text of the master's extended public key. -/
  | xpub (text : String)
  /-- The compressed public key of the access key, in hexadecimal. -/
  | accessKey (text : String)
deriving DecidableEq

/-- The text of the name. -/
def AuthIdentity.text : AuthIdentity → String
  | .xpub text => text
  | .accessKey text => text

/-- **What a signed request says about itself.** -/
structure AuthPayload where
  identity : AuthIdentity
  hash : String
  nonce : String
  time : Int
  signature : String
deriving DecidableEq

/-- The text that is signed. -/
def authMessage (identity hash nonce : String) (time : Int) : String :=
  identity ++ hash ++ nonce ++ toString time

/-- The SHA-256 digest of a body in hexadecimal; an empty body has one too. -/
def hashBody (body : Bytes) : String := String.ofList (Hex.encode (Sha256.hash body))

/-- The compressed public key of a secret key, in hexadecimal. -/
def SecretKey.publicText (k : SecretKey) : String :=
  String.ofList (Hex.encode k.publicKey.compressed)

namespace AuthPayload

/-- The nonce of a moment: its random bytes in hexadecimal. -/
def freshNonce (moment : Moment) : Except AuthError String :=
  match moment.random with
  | .ok bytes => .ok (String.ofList (Hex.encode bytes.val))
  | .error reason => .error (.step .generateNonce (.randomness reason))

/-- A signature by a key, its failure told as a step. -/
def signMessage (key : SecretKey) (message : String) : Except AuthError String :=
  (key.signText message).mapError fun fault => .step .signMessage (.signing fault)

/-- A payload signed by a key under a name. -/
def signed (identity : AuthIdentity) (key : SecretKey) (body : Bytes) (nonce : String)
    (time : Int) : Except AuthError AuthPayload := do
  let hash := hashBody body
  let σ ← signMessage key (authMessage identity.text hash nonce time)
  pure ⟨identity, hash, nonce, time, σ⟩

/-- **The payload of a request signed with an access key.** -/
def forAccessKey (key : SecretKey) (body : Bytes) (moment : Moment) :
    Except AuthError AuthPayload := do
  let nonce ← freshNonce moment
  signed (.accessKey key.publicText) key body nonce moment.time

/-- **The payload of a request signed with the child of a master key** that the nonce addresses. -/
def forXpriv (master : Xpriv) (body : Bytes) (moment : Moment) : Except AuthError AuthPayload := do
  let nonce ← freshNonce moment
  let child ← (master.signingKey nonce).mapError (AuthError.step .deriveChildKey)
  signed (.xpub master.publicHalf.text) child.key body nonce moment.time

/-- The payload of a request signed below an extended key, which has to carry its secret half. -/
def forExtendedKey (master : ExtendedKey) (body : Bytes) (moment : Moment) :
    Except AuthError AuthPayload := do
  let xpriv ← master.xpriv.mapError (AuthError.step .deriveChildKey)
  forXpriv xpriv body moment

end AuthPayload

end WalletApi
