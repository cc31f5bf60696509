import WalletApi.Auth.Message
import WalletApi.Key.Child

/-!
# Authentication errors

Why a request could not be authenticated. A fault of a part is wrapped in the step that met it and
in the mode of the client, so that the message tells the whole way; `AuthError.root` unwraps it
again.
-/

namespace WalletApi

/-- How a client authenticates its requests. -/
inductive AuthMode
  | noAuth
  | publicKeyOnly
  | signedWithDerivedKey
  | signedWithAccessKey
deriving DecidableEq

/-- The name of a mode. -/
def AuthMode.name : AuthMode → String
  | .noAuth => "no-auth"
  | .publicKeyOnly => "xpub-only"
  | .signedWithDerivedKey => "xpriv-signed"
  | .signedWithAccessKey => "access-key-signed"

/-- Why a text is no key of the kind asked for. -/
inductive KeyFault
  | xpriv (fault : ExtendedFault)
  | xpub (fault : ExtendedFault)
  /-- The text is an extended key of neither kind. -/
  | extended (asSecret asShared : ExtendedFault)
  /-- The text writes no secret key in either way. -/
  | secret (asImport : SecretKey.ImportFault) (asDigits : SecretKey.DigitsFault)
deriving DecidableEq

/-- A step of the work that authenticates a request. -/
inductive AuthStep
  | generateNonce
  | deriveChildKey
  | signMessage
  | buildAccessKeyPayload
  | buildXprivPayload
deriving DecidableEq

/-- The name of a step. -/
def AuthStep.name : AuthStep → String
  | .generateNonce => "generate nonce"
  | .deriveChildKey => "derive child key"
  | .signMessage => "sign message"
  | .buildAccessKeyPayload => "build access key payload"
  | .buildXprivPayload => "build xpriv payload"

/-- **Why a request could not be authenticated.** -/
inductive AuthError
  | keyFormat (fault : KeyFault)
  | derivation (fault : DerivationFault)
  | signing (fault : SigningFault)
  /-- The source of random bytes failed, for the reason it gives. -/
  | randomness (reason : String)
  /-- The value of the header of this name may not stand in a header. -/
  | header (name : String)
  | step (work : AuthStep) (source : AuthError)
  | append (mode : AuthMode) (source : AuthError)
deriving DecidableEq

namespace KeyFault

/-- What every message about a key begins with. -/
def opening : String := "Invalid key format: "

/-- The wording for a text that is no secret extended key. -/
def xprivMessage (fault : ExtendedFault) : String :=
  opening ++ "extended private key: " ++ fault.message

/-- The wording for a text that is no public extended key. -/
def xpubMessage (fault : ExtendedFault) : String :=
  opening ++ "extended public key: " ++ fault.message

/-- The wording of a key fault. A text of neither kind gets the whole message of both. -/
def message : KeyFault → String
  | .xpriv fault => xprivMessage fault
  | .xpub fault => xpubMessage fault
  | .extended asSecret asShared =>
    opening ++ xprivMessage asSecret ++ "; " ++ xpubMessage asShared
  | .secret asImport asDigits =>
    opening ++ "not a WIF key: " ++ asImport.message ++ "; not a hex key: " ++ asDigits.message

end KeyFault

namespace AuthError

/-- The wording of an error. -/
def message : AuthError → String
  | .keyFormat fault => fault.message
  | .derivation fault => "Child key derivation failed: " ++ fault.message
  | .signing fault => "Message signing failed: " ++ fault.message
  | .randomness reason => "Random source failure: " ++ reason
  | .header name => "Invalid value for header " ++ name ++ ": failed to parse header value"
  | .step work source => work.name ++ " failed: " ++ source.message
  | .append mode source => "Append auth headers (" ++ mode.name ++ ") failed: " ++ source.message

/-- The error without its wrappers. -/
def root : AuthError → AuthError
  | .step _ source => source.root
  | .append _ source => source.root
  | e => e

/-- The fault lies in the text of a key. -/
def isKeyFormat (e : AuthError) : Bool :=
  match e.root with
  | .keyFormat _ => true
  | _ => false

end AuthError

/-! ### Reading keys -/

/-- The secret extended key that a text writes. -/
def ExtendedKey.ofXpriv (s : String) : Except AuthError ExtendedKey :=
  match Xpriv.ofText s with
  | .ok key => .ok (.secret key)
  | .error fault => .error (.keyFormat (.xpriv fault))

/-- The public extended key that a text writes. -/
def ExtendedKey.ofXpub (s : String) : Except AuthError ExtendedKey :=
  match Xpub.ofText s with
  | .ok key => .ok (.shared key)
  | .error fault => .error (.keyFormat (.xpub fault))

/-- The extended key of either kind that a text writes. -/
def ExtendedKey.read (s : String) : Except AuthError ExtendedKey :=
  match ExtendedKey.ofText s with
  | .ok key => .ok key
  | .error (asSecret, asShared) => .error (.keyFormat (.extended asSecret asShared))

/-- The secret half of an extended key, which a public one lacks. -/
def ExtendedKey.xpriv (k : ExtendedKey) : Except AuthError Xpriv :=
  match k.xpriv? with
  | some key => .ok key
  | none => .error (.derivation .noSecretHalf)

/-- The secret key that a text writes in either way. -/
def SecretKey.read (s : String) : Except AuthError SecretKey :=
  match SecretKey.ofText s with
  | .ok key => .ok key
  | .error (asImport, asDigits) => .error (.keyFormat (.secret asImport asDigits))

/-! ### Keys of nonces -/

/-- **The key that signs a request with a given nonce.** -/
def Xpriv.signingKey (master : Xpriv) (nonce : String) : Except AuthError Xpriv :=
  (master.oneTimeKey nonce).mapError AuthError.derivation

/-- **The key that a verifier checks a signature with a given nonce by.** -/
def Xpub.verifyingKey (master : Xpub) (nonce : String) : Except AuthError Xpub :=
  (master.oneTimeKey nonce).mapError AuthError.derivation

/-- The signing key below a master key of either kind, which has to carry its secret half. -/
def ExtendedKey.signingKey (master : ExtendedKey) (nonce : String) : Except AuthError Xpriv := do
  let key ← master.xpriv
  key.signingKey nonce

end WalletApi
