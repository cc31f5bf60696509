import WalletApi.Url.Host

/-!
# Addresses

An address of the web: a scheme, a server with the user who asks, a path of segments, a query and a
fragment. Every part is kept as it is written, with percent encoding where it needs it. Addresses of
schemes without a hierarchy have a plain path instead of segments.
-/

namespace WalletApi

/-- The server of an address, and the user. -/
structure Authority where
  user : List Char
  password : List Char
  host : Host
  port : Option Nat
deriving DecidableEq

/-- The path of an address. -/
inductive UrlPath
  | segments (segments : List (List Char))
  | plain (text : List Char)
deriving DecidableEq

/-- **An address.** -/
structure Url where
  scheme : List Char
  authority : Option Authority
  path : UrlPath
  query : Option (List Char)
  fragment : Option (List Char)
deriving DecidableEq

namespace Url

/-- The ports that schemes use unless another one is named. -/
def defaultPorts : List (String × Nat) :=
  [("http", 80), ("https", 443), ("ws", 80), ("wss", 443), ("ftp", 21)]

/-- The port that a scheme uses unless another one is named. -/
def defaultPort? (scheme : List Char) : Option Nat := defaultPorts.lookup (String.ofList scheme)

/-- The scheme of files. -/
def fileScheme : List Char := "file".toList

/-- The scheme has servers, and a backslash in its addresses means a slash. -/
def isSpecial (scheme : List Char) : Bool := scheme == fileScheme || (defaultPort? scheme).isSome

/-- The text of an authority, after its two slashes. -/
def authorityText (a : Authority) : List Char :=
  let user :=
    if a.user = [] ∧ a.password = [] then []
    else a.user ++ (if a.password = [] then [] else ':' :: a.password) ++ ['@']
  let port :=
    match a.port with
    | none => []
    | some n => ':' :: (toString n).toList
  user ++ a.host.text ++ port

/-- The text of a path. -/
def pathText : UrlPath → List Char
  | .segments l => l.flatMap fun s => '/' :: s
  | .plain text => text

/-- What stands between the scheme and the path. Without a server, a path that begins with an empty
segment would be taken for one, and a point keeps it apart. -/
def beforePath (u : Url) : List Char :=
  match u.authority, u.path with
  | some a, _ => '/' :: '/' :: authorityText a
  | none, .segments ([] :: _ :: _) => ['/', '.']
  | none, _ => []

/-- A part of an address after the sign that begins it. -/
def partText (sign : Char) : Option (List Char) → List Char
  | none => []
  | some cs => sign :: cs

/-- The characters of an address. -/
def chars (u : Url) : List Char :=
  u.scheme ++ ':' :: (beforePath u ++ pathText u.path ++ partText '?' u.query
    ++ partText '#' u.fragment)

/-- **The text of an address.** -/
def text (u : Url) : String := String.ofList u.chars

/-- The address with the path closed by a slash, so that what is resolved against it goes below the
path and not beside its last segment. -/
def closePath (u : Url) : Url :=
  match u.path with
  | .segments l =>
    if l.getLast? = some [] then u else { u with path := .segments (l ++ [[]]) }
  | .plain text =>
    if text.getLast? = some '/' then u
    else if text = [] then { u with path := .plain "%2F".toList }
    else { u with path := .plain (text ++ ['/']) }

end Url

end WalletApi
