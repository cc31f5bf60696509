import WalletApi.Inspect
import WalletApi.Log

/-!
# Credentials

The key material that identifies a client, as the text it was configured with. A client uses one
credential; where several are configured an access key wins over an extended private key, and that
over an extended public key. Texts of secret keys are never shown.
-/

namespace WalletApi

/-- **A configured key**, still as text. -/
inductive Credential
  /-- An extended private key: requests are signed with children of it. -/
  | xpriv (text : String)
  /-- An extended public key: requests name it and are not signed. -/
  | xpub (text : String)
  /-- A secret key of its own: requests are signed with it. -/
  | accessKey (text : String)
deriving DecidableEq

namespace Credential

/-- The name of the kind. -/
def kind : Credential → String
  | .xpriv _ => "xpriv"
  | .xpub _ => "xpub"
  | .accessKey _ => "access_key"

/-- The text of the key. -/
def text : Credential → String
  | .xpriv text => text
  | .xpub text => text
  | .accessKey text => text

/-- What stands for a secret in shown values. -/
def redacted : String := "<redacted>"

/-- How a credential is shown: only an extended public key with its text. -/
def shown : Credential → Shown
  | .xpub text => .atom ("XPub(" ++ text ++ ")")
  | c => .atom (c.kind ++ "(" ++ redacted ++ ")")

/-- How a secret text that may be missing is shown. -/
def shownSecret (secret : Option String) : Shown :=
  .option (fun _ => .quoted redacted) secret

/-- The credential that wins among the configured ones. -/
def winner (xpriv xpub accessKey : Option String) : Option Credential :=
  match accessKey, xpriv, xpub with
  | some key, _, _ => some (.accessKey key)
  | none, some key, _ => some (.xpriv key)
  | none, none, some key => some (.xpub key)
  | none, none, none => none

/-- How many of the credentials are configured. -/
def countConfigured (xpriv xpub accessKey : Option String) : Nat :=
  ([accessKey, xpriv, xpub].filter Option.isSome).length

/-- **The credential that a client uses**, with a warning when others lose against it. -/
def select (xpriv xpub accessKey : Option String) : Option Credential × List LogEvent :=
  let selected := winner xpriv xpub accessKey
  let configured := countConfigured xpriv xpub accessKey
  match selected with
  | none => (none, [])
  | some c =>
    if configured > 1 then
      (some c,
        [{ level := .warn
           message := "multiple credentials configured; lower-precedence ones ignored"
           fields := [("selected", c.kind), ("configured", toString configured)] }])
    else (some c, [])

end Credential

end WalletApi
