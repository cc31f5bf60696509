import WalletApi.Text.Blank
import WalletApi.Url.Basic

/-!
# Addresses read from text

A text is an address of its own when it begins with a scheme, and else it is resolved against a
base: it may replace the server, the whole path, the last segment and what follows, the query, or
the fragment. Segments of one or two points are steps within the path and are carried out, but no
step up leaves a segment that reads like a drive. Blanks and control characters around the text do
not count, and neither do tabs and line ends in it.
-/

namespace WalletApi.Url

/-- Why a text is no address. -/
inductive ReadFault
  | host (fault : HostFault)
  | port
  | noBase
  /-- The base has a plain path, which nothing can be resolved against. -/
  | plainBase
deriving DecidableEq

/-- The wording of a fault. -/
def ReadFault.message : ReadFault → String
  | .host .empty => "empty host"
  | .host .ipv4 => "invalid IPv4 address"
  | .host .ipv6 => "invalid IPv6 address"
  | .host .domain => "invalid international domain name"
  | .host .character => "invalid domain character"
  | .port => "invalid port number"
  | .noBase => "relative URL without a base"
  | .plainBase => "relative URL with a cannot-be-a-base base"

/-! ### Cutting the text -/

/-- The character ends a segment. -/
def isSlash (special : Bool) (c : Char) : Bool := c == '/' || (special && c == '\\')

/-- The text without what does not count. -/
def cleaned (s : String) : List Char :=
  let outer (c : Char) : Bool := c.toNat ≤ 0x20
  let inner := ((s.toList.dropWhile outer).reverse.dropWhile outer).reverse
  inner.filter fun c => !(c == '\t' || c == '\n' || c == '\r')

/-- The scheme that a text begins with, lowered, and what follows its colon. -/
def scheme? (cs : List Char) : Option (List Char × List Char) :=
  match cs with
  | [] => none
  | first :: _ =>
    if first.isAlpha then
      let inScheme (c : Char) : Bool := c.isAlphanum || c == '+' || c == '-' || c == '.'
      match cs.dropWhile inScheme with
      | ':' :: rest => some ((cs.takeWhile inScheme).map Char.toLower, rest)
      | _ => none
    else none

/-- The character begins the query or the fragment. -/
def beginsTail (c : Char) : Bool := c == '?' || c == '#'

/-- What stands before the query and the fragment. -/
def beforeTail (cs : List Char) : List Char := cs.takeWhile fun c => !beginsTail c

/-- The query of a text, encoded for a scheme. -/
def queryOf (special : Bool) (cs : List Char) : Option (List Char) :=
  match cs.dropWhile fun c => !beginsTail c with
  | '?' :: rest =>
    some (Percent.encode (if special then Percent.specialQuerySet else Percent.querySet)
      (rest.takeWhile (· != '#')))
  | _ => none

/-- The fragment of a text, encoded. -/
def fragmentOf (cs : List Char) : Option (List Char) :=
  match cs.dropWhile (· != '#') with
  | _ :: rest => some (Percent.encode Percent.fragmentSet rest)
  | [] => none

/-- The address with a text as its query, in place of the one that it had. Tabs and line ends in the
text do not count, and what cannot stand in a query of the scheme is encoded. -/
def withQuery (u : Url) (cs : List Char) : Url :=
  let kept := cs.filter fun c => !(c == '\t' || c == '\n' || c == '\r')
  let set := if isSpecial u.scheme then Percent.specialQuerySet else Percent.querySet
  { u with query := some (Percent.encode set kept) }

/-! ### Paths -/

/-- The text between slashes, cut out. -/
def splitAtSlashes (special : Bool) : List Char → List (List Char)
  | [] => [[]]
  | c :: rest =>
    if isSlash special c then [] :: splitAtSlashes special rest
    else
      match splitAtSlashes special rest with
      | [] => [[c]]
      | segment :: others => (c :: segment) :: others

/-- The number of points that a segment stands for, if it is one of the steps within a path. -/
def points? (segment : List Char) : Option Nat :=
  let lowered := segment.map Char.toLower
  if lowered = ['.'] ∨ lowered = "%2e".toList then some 1
  else if lowered ∈ ["..".toList, "%2e.".toList, ".%2e".toList, "%2e%2e".toList] then some 2
  else none

/-- A segment that names a drive: a letter and a colon, or what stands for one. -/
def isDrive (segment : List Char) : Bool :=
  match segment with
  | [letter, sign] => letter.isAlpha && (sign == ':' || sign == '|')
  | _ => false

/-- A segment that reads like a drive, where it ends or goes on with a backslash. -/
def readsAsDrive (segment : List Char) : Bool :=
  match segment with
  | letter :: sign :: rest =>
    letter.isAlpha && (sign == ':' || sign == '|') && (rest.isEmpty || rest.head? == some '\\')
  | _ => false

/-- The path a step up: without its last segment, unless that reads like a drive. This is so for
every scheme. -/
def ascend (path : List (List Char)) : List (List Char) :=
  match path.getLast? with
  | some last => if readsAsDrive last then path else path.dropLast
  | none => []

/-- The path of a file without its last segment. A drive by itself stays. -/
def parent (path : List (List Char)) : List (List Char) :=
  match path with
  | [segment] => if isDrive segment then path else []
  | _ => path.dropLast

/-- A path with one more segment. A drive that begins the path of a file is written with a colon. -/
def extend (file : Bool) (path : List (List Char)) (segment : List Char) : List (List Char) :=
  if file && path.isEmpty && isDrive segment then [segment.take 1 ++ [':']]
  else path ++ [Percent.encode Percent.pathSet segment]

/-- The segments of a text after those of a path. A step that ends the text leaves an empty segment,
so that the path ends in a slash. -/
def walk (file : Bool) : List (List Char) → List (List Char) → List (List Char)
  | path, [] => path
  | path, [segment] =>
    match points? segment with
    | some 1 => path ++ [[]]
    | some _ => ascend path ++ [[]]
    | none => extend file path segment
  | path, segment :: rest =>
    match points? segment with
    | some 1 => walk file path rest
    | some _ => walk file (ascend path) rest
    | none => walk file (extend file path segment) rest

/-- The segments of a file's path without the empty ones that it begins with. -/
def trimSegments : List (List Char) → List (List Char)
  | [] :: s :: rest => trimSegments (s :: rest)
  | l => l

/-- The path that a text goes on with after the segments of another one. -/
def pathFrom (scheme : List Char) (start : List (List Char)) (cs : List Char) : UrlPath :=
  let file := scheme == fileScheme
  let path := walk file start (splitAtSlashes (isSpecial scheme) cs)
  .segments (if file then trimSegments path else path)

/-- The path after an authority. Schemes that have servers have a path of at least one segment. -/
def pathAfterAuthority (scheme cs : List Char) : UrlPath :=
  match cs with
  | [] => if isSpecial scheme then .segments [[]] else .segments []
  | c :: rest =>
    if isSlash (isSpecial scheme) c then pathFrom scheme [] rest else pathFrom scheme [] cs

/-! ### Authorities -/

/-- The text before the last sign of a kind, if it occurs, and the text after it. -/
def splitAtLast (sign : Char) (cs : List Char) : Option (List Char) × List Char :=
  let after := (cs.reverse.takeWhile (· != sign)).reverse
  if after.length < cs.length then (some (cs.take (cs.length - after.length - 1)), after)
  else (none, cs)

/-- The text of a host, which ends at a colon outside brackets. -/
def hostText : Bool → List Char → List Char
  | _, [] => []
  | bracketed, c :: rest =>
    if c = ':' ∧ !bracketed then []
    else c :: hostText (if c = '[' then true else if c = ']' then false else bracketed) rest

/-- The port that a text begins with and what follows it; the usual port of a scheme is left out. -/
def portFrom (scheme cs : List Char) : Except ReadFault (Option Nat × List Char) :=
  let digits := cs.takeWhile Char.isDigit
  let rest := cs.dropWhile Char.isDigit
  let n := digits.foldl (fun n c => n * 10 + (c.toNat - 48)) 0
  if 0xffff < n then .error .port
  else if rest ≠ [] ∧ rest.head? ≠ some '\\' then .error .port
  else .ok (if digits = [] ∨ defaultPort? scheme = some n then none else some n, rest)

/-- The host of a scheme. -/
def hostOf (scheme cs : List Char) : Except ReadFault Host :=
  (if isSpecial scheme then
    if cs = [] then .error .empty else Host.ofServerText cs
  else Host.ofPlainText cs).mapError ReadFault.host

/-- An address from the text after the two slashes of its authority. -/
def withAuthority (scheme cs : List Char) : Except ReadFault Url := do
  let special := isSpecial scheme
  let front := beforeTail cs
  let inside := front.takeWhile fun c => !isSlash special c
  let outside := front.dropWhile fun c => !isSlash special c
  let (user?, server) := splitAtLast '@' inside
  if user? = some [] ∧ server = [] ∧ cs.length ≠ inside.length then .error (.host .empty)
  else
    let userText := user?.getD []
    let user := Percent.encode Percent.userSet (userText.takeWhile (· != ':'))
    let password := Percent.encode Percent.userSet ((userText.dropWhile (· != ':')).drop 1)
    let name := hostText false server
    let host ← hostOf scheme name
    let afterHost := server.drop name.length
    if host = .none ∧ (afterHost ≠ [] ∨ user ≠ [] ∨ password ≠ []) then .error (.host .empty)
    else
      let (port, afterPort) ←
        match afterHost with
        | [] => .ok (none, [])
        | _ :: digits => portFrom scheme digits
      pure
        { scheme := scheme
          authority := some ⟨user, password, host, port⟩
          path := pathAfterAuthority scheme (afterPort ++ outside)
          query := queryOf special cs
          fragment := fragmentOf cs }

/-! ### Files -/

/-- The text begins with a segment that names a drive. -/
def beginsWithDrive (cs : List Char) : Bool :=
  isDrive (cs.takeWhile fun c => !(isSlash true c || beginsTail c))

/-- The authority of a file on a host. -/
def fileAuthority (host : Host) : Authority := ⟨[], [], host, none⟩

/-- An address of a file from a text that names no host. -/
def localFile (host : Host) (start : List (List Char)) (cs : List Char) : Url where
  scheme := fileScheme
  authority := some (fileAuthority host)
  path := pathFrom fileScheme start (beforeTail cs)
  query := queryOf true cs
  fragment := fragmentOf cs

/-- The path begins with a drive. -/
def onDrive : UrlPath → Bool
  | .segments (first :: _) => isDrive first
  | _ => false

/-- An address of a file from the text after two slashes, which may name a host. The host of a drive
is dropped. -/
def fileOnHost (cs : List Char) : Except ReadFault Url := do
  let front := beforeTail cs
  let name := front.takeWhile fun c => !isSlash true c
  if isDrive name then pure (localFile .none [] cs)
  else
    let host ←
      if name = [] then .ok Host.none
      else
        match Host.ofServerText name with
        | .ok host => .ok (if host = .name "localhost".toList then .none else host)
        | .error fault => .error (.host fault)
    let path := pathAfterAuthority fileScheme (front.drop name.length)
    pure
      { scheme := fileScheme
        authority := some (fileAuthority (if onDrive path then .none else host))
        path := path
        query := queryOf true cs
        fragment := fragmentOf cs }

/-- The host of an address. -/
def host (u : Url) : Host := (u.authority.map Authority.host).getD .none

/-- The segments of an address. -/
def segments (u : Url) : List (List Char) :=
  match u.path with
  | .segments l => l
  | .plain _ => []

/-- An address of a file from the text after the scheme, against a base that is a file. -/
def file (base : Option Url) (cs : List Char) : Except ReadFault Url :=
  match cs, base with
  | a :: b :: rest, _ =>
    if isSlash true a && isSlash true b then fileOnHost rest
    else if isSlash true a then fileAtRoot (b :: rest)
    else .ok (fileBeside cs)
  | [a], _ => if isSlash true a then fileAtRoot [] else .ok (fileBeside cs)
  | [], some base => .ok { base with fragment := none }
  | [], none => .ok (localFile .none [] [])
where
  /-- A file whose path is given from its root; drive and host are those of the base. -/
  fileAtRoot (rest : List Char) : Except ReadFault Url :=
    match base with
    | some base =>
      if beginsWithDrive rest then .ok (localFile .none [] rest)
      else if onDrive base.path then .ok (localFile .none (base.segments.take 1) rest)
      else .ok (localFile base.host [] rest)
    | none => .ok (localFile .none [] rest)
  /-- A file beside the base. -/
  fileBeside (cs : List Char) : Url :=
    match base with
    | none => localFile .none [] cs
    | some base =>
      if cs.head? = some '?' then { base with query := queryOf true cs, fragment := fragmentOf cs }
      else if cs.head? = some '#' then { base with fragment := fragmentOf cs }
      else if beginsWithDrive cs then localFile .none [] cs
      else localFile base.host (parent base.segments) cs

/-! ### Resolving -/

/-- An address from a text without a scheme, against a base with segments. -/
def relative (base : Url) (cs : List Char) : Except ReadFault Url :=
  let special := isSpecial base.scheme
  match cs with
  | [] => .ok { base with fragment := none }
  | c :: rest =>
    if c = '?' then .ok { base with query := queryOf special cs, fragment := fragmentOf cs }
    else if c = '#' then .ok { base with fragment := fragmentOf cs }
    else
      let onto (start : List (List Char)) (cs : List Char) : Url :=
        { base with
          path := pathFrom base.scheme start (beforeTail cs)
          query := queryOf special cs
          fragment := fragmentOf cs }
      if isSlash true c then
        match rest with
        | d :: _ =>
          if isSlash true d then
            if c = '/' ∧ d = '/' then withAuthority base.scheme (cs.drop 2)
            else withAuthority base.scheme (cs.dropWhile (isSlash true))
          else .ok (onto [] rest)
        | [] => .ok (onto [] rest)
      else .ok (onto base.segments.dropLast cs)

/-- An address without an authority, from the text after its scheme. -/
def withoutAuthority (scheme cs : List Char) : Url :=
  let path :=
    match beforeTail cs with
    | '/' :: rest => pathFrom scheme [] rest
    | text => .plain (Percent.encode Percent.isControl text)
  ⟨scheme, none, path, queryOf false cs, fragmentOf cs⟩

/-- An address from a text with a scheme. -/
def absolute (base : Option Url) (scheme cs : List Char) : Except ReadFault Url :=
  if scheme = fileScheme then file (base.filter fun b => b.scheme == fileScheme) cs
  else if isSpecial scheme then
    let slashes := (cs.takeWhile (isSlash true)).length
    match base with
    | some base =>
      if slashes < 2 ∧ base.scheme = scheme then relative base cs
      else withAuthority scheme (cs.drop slashes)
    | none => withAuthority scheme (cs.drop slashes)
  else
    match cs with
    | '/' :: '/' :: rest => withAuthority scheme rest
    | _ => .ok (withoutAuthority scheme cs)

/-- **The address that a text writes**, against a base if there is one. -/
def resolve (base : Option Url) (s : String) : Except ReadFault Url :=
  let cs := cleaned s
  match scheme? cs with
  | some (scheme, rest) => absolute base scheme rest
  | none =>
    match base with
    | none => .error .noBase
    | some base =>
      if cs.head? = some '#' then .ok { base with fragment := fragmentOf cs }
      else
        match base.path with
        | .plain _ => .error .plainBase
        | .segments _ => if base.scheme = fileScheme then file (some base) cs else relative base cs

/-- The address that a text writes on its own. -/
def ofText (s : String) : Except ReadFault Url := resolve none s

end WalletApi.Url
