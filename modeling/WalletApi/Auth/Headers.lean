import WalletApi.Auth.Credential
import WalletApi.Auth.Payload

/-!
# Authentication headers

Each mode of authentication writes its own headers: none, the extended public key alone, or the five
headers of a signed payload. Values are computed before any is written, so a request whose payload
cannot be built keeps the headers it had.
-/

namespace WalletApi

/-! ### Header maps -/

/-- **The headers of a request**: pairs of a lowercase name and a value, in the order in which they
were added. A name may occur more than once. -/
structure HeaderMap where
  entries : List (String × String)
deriving DecidableEq

namespace HeaderMap

/-- No headers. -/
def empty : HeaderMap := ⟨[]⟩

/-- The values of a name, in order. -/
def values (h : HeaderMap) (name : String) : List String :=
  (h.entries.filter fun e => e.1 == name).map Prod.snd

/-- The names, each once, in the order of their first values. -/
def names (h : HeaderMap) : List String := (h.entries.map Prod.fst).eraseDups

/-- One more value for a name, whose letters are lowered. -/
def add (h : HeaderMap) (name value : String) : HeaderMap :=
  ⟨h.entries ++ [(String.ofList (name.toList.map Char.toLower), value)]⟩

/-- One value for a name in place of all that it had. -/
def insert (h : HeaderMap) (name value : String) : HeaderMap :=
  ⟨(h.entries.filter fun e => e.1 != name) ++ [(name, value)]⟩

theorem values_insert_self (h : HeaderMap) (name value : String) :
    (h.insert name value).values name = [value] := by
  simp [insert, values, List.filter_append, List.filter_filter]

theorem values_insert_of_ne (h : HeaderMap) {name other : String} (value : String)
    (hne : name ≠ other) : (h.insert name value).values other = h.values other := by
  have hbeq : (name == other) = false := by simp [hne]
  have hfilter : ∀ l : List (String × String),
      (l.filter fun e => e.1 != name).filter (fun e => e.1 == other)
        = l.filter fun e => e.1 == other := by
    intro l
    rw [List.filter_filter]
    apply List.filter_congr
    intro e _
    by_cases he : e.1 = other
    · simp [he, Ne.symm hne]
    · simp [he]
  simp [insert, values, List.filter_append, hfilter, hbeq]

end HeaderMap

/-! ### The modes -/

/-- The names of the authentication headers. -/
def xpubHeader : String := "x-auth-xpub"

@[inherit_doc xpubHeader]
def accessKeyHeader : String := "x-auth-key"

@[inherit_doc xpubHeader]
def hashHeader : String := "x-auth-hash"

@[inherit_doc xpubHeader]
def nonceHeader : String := "x-auth-nonce"

@[inherit_doc xpubHeader]
def timeHeader : String := "x-auth-time"

@[inherit_doc xpubHeader]
def signatureHeader : String := "x-auth-signature"

/-- The names of the headers that a mode writes. -/
def AuthMode.headerNames : AuthMode → List String
  | .noAuth => []
  | .publicKeyOnly => [xpubHeader]
  | .signedWithDerivedKey => [xpubHeader, hashHeader, nonceHeader, timeHeader, signatureHeader]
  | .signedWithAccessKey => [accessKeyHeader, hashHeader, nonceHeader, timeHeader, signatureHeader]

/-- The name and the text of a payload's identity. -/
def AuthIdentity.header : AuthIdentity → String × String
  | .xpub text => (xpubHeader, text)
  | .accessKey text => (accessKeyHeader, text)

/-- The names and the values that a payload is written as. -/
def AuthPayload.headers (p : AuthPayload) : List (String × String) :=
  [p.identity.header, (hashHeader, p.hash), (nonceHeader, p.nonce), (timeHeader, toString p.time),
    (signatureHeader, p.signature)]

/-- A byte that may stand in the value of a header: no control character other than a tab. -/
def isHeaderByte (b : UInt8) : Bool := (32 ≤ b && b != 127) || b == 9

/-- A header, if its value may stand in one. -/
def checkHeader (header : String × String) : Except AuthError (String × String) :=
  if (Utf8.encode header.2.toList).all isHeaderByte then .ok header else .error (.header header.1)

/-- **How a client authenticates its requests**, with the key that its mode needs. -/
inductive Authenticator
  | noAuth
  | publicKeyOnly (key : Xpub)
  | accessKey (key : SecretKey)
  | extendedKey (key : Xpriv)
deriving DecidableEq

namespace Authenticator

/-- The authenticator of a credential, whose key is read here. -/
def ofCredential : Option Credential → Except AuthError Authenticator
  | none => .ok .noAuth
  | some (.accessKey text) => (SecretKey.read text).map .accessKey
  | some (.xpriv text) =>
    match Xpriv.ofText text with
    | .ok key => .ok (.extendedKey key)
    | .error fault => .error (.keyFormat (.xpriv fault))
  | some (.xpub text) =>
    match Xpub.ofText text with
    | .ok key => .ok (.publicKeyOnly key)
    | .error fault => .error (.keyFormat (.xpub fault))

/-- The mode. -/
def mode : Authenticator → AuthMode
  | .noAuth => .noAuth
  | .publicKeyOnly _ => .publicKeyOnly
  | .accessKey _ => .signedWithAccessKey
  | .extendedKey _ => .signedWithDerivedKey

/-- The headers of a request with a given body. -/
def fields (a : Authenticator) (body : Bytes) (moment : Moment) :
    Except AuthError (List (String × String)) :=
  match a with
  | .noAuth => .ok []
  | .publicKeyOnly key => [(xpubHeader, key.text)].mapM checkHeader
  | .accessKey key => do
    let payload ← (AuthPayload.forAccessKey key body moment).mapError
      (AuthError.step .buildAccessKeyPayload)
    payload.headers.mapM checkHeader
  | .extendedKey key => do
    let payload ← (AuthPayload.forXpriv key body moment).mapError
      (AuthError.step .buildXprivPayload)
    payload.headers.mapM checkHeader

/-- **Writes the headers of authentication into a map**, each with one value. All of them are
computed before the first is written. -/
def write (a : Authenticator) (body : Bytes) (moment : Moment) :
    ExceptT AuthError (StateM HeaderMap) Unit := do
  let fields ← ExceptT.mk (pure ((a.fields body moment).mapError (AuthError.append a.mode)))
  fields.forM fun f => modify fun h => h.insert f.1 f.2

/-- The headers with those of authentication, if they can be written. -/
def append (a : Authenticator) (headers : HeaderMap) (body : Bytes) (moment : Moment) :
    Except AuthError HeaderMap :=
  let (result, headers) := (a.write body moment).run headers
  result.map fun _ => headers

/-- How an authenticator is shown: by its mode only. -/
def shown (a : Authenticator) : Shown := .atom ("AuthHeaders(" ++ a.mode.name ++ ")")

end Authenticator

end WalletApi
