import WalletApi.Url.Percent

/-!
# Hosts

The server of an address is named by a domain, by an address of version four or six of the internet
protocol, or not at all. Schemes that have servers read the name strictly: it is decoded and
lowered, and a name whose last label is a number has to be an address. Other schemes take any name
without characters that would end it.

## What is left out

Names of servers are not brought into their form in ASCII. A name with a character beyond ASCII is
refused as a domain, also where it has such a form, and a label that begins with `xn--` is kept as
it stands, also where it encodes nothing.
-/

namespace WalletApi

/-- **The host of an address.** -/
inductive Host
  /-- No host. -/
  | none
  | name (text : List Char)
  | ipv4 (address : Nat)
  /-- The eight pieces of an address of version six. -/
  | ipv6 (pieces : List Nat)
deriving DecidableEq

/-- Why a text is no host. -/
inductive HostFault
  | empty
  | ipv4
  | ipv6
  /-- The name cannot be the name of a server. -/
  | domain
  /-- The name has a character that a name cannot have. -/
  | character
deriving DecidableEq

namespace Host

/-! ### Version four -/

/-- The text at each point, cut out. -/
def splitAtPoints (cs : List Char) : List (List Char) := cs.splitOn '.'

/-- The number that digits of a base write, each digit read by a function; none if one is no digit.
-/
def inBase (base : Nat) (cs : List Char) : Option Nat :=
  cs.foldlM (fun n c =>
    match Percent.value? c with
    | some d => if d < base then some (n * base + d) else Option.none
    | Option.none => Option.none) 0

/-- A part of an address of version four: decimal, octal after a zero, or hexadecimal after `0x`. -/
def ipv4Number? (cs : List Char) : Option Nat :=
  match cs with
  | [] => Option.none
  | '0' :: 'x' :: digits => inBase 16 digits
  | '0' :: 'X' :: digits => inBase 16 digits
  | '0' :: d :: digits => inBase 8 (d :: digits)
  | digits => inBase 10 digits

/-- The parts of a name, without an empty one at the end. -/
def labels (cs : List Char) : List (List Char) :=
  let parts := splitAtPoints cs
  if parts.getLast? = some [] then parts.dropLast else parts

/-- The last label is a number, so the name has to be an address. -/
def endsInNumber (cs : List Char) : Bool :=
  let parts := splitAtPoints cs
  let last :=
    if parts.getLast? = some [] then parts.dropLast.getLast? else parts.getLast?
  match last with
  | Option.none => false
  | some label => (!label.isEmpty && label.all Char.isDigit) || (ipv4Number? label).isSome

/-- An address of version four: up to four numbers, of which the last one fills the bytes that are
left. -/
def ipv4? (cs : List Char) : Option Nat := do
  let numbers ← (labels cs).mapM ipv4Number?
  let last ← numbers.getLast?
  let front := numbers.dropLast
  if front.length ≤ 3 ∧ last < Bytes.capacity (4 - front.length) ∧ front.all (· < 256) then
    some (front.foldl (fun n b => n * 256 + b) 0 * Bytes.capacity (4 - front.length) + last)
  else Option.none

/-- The text of an address of version four. -/
def ipv4Text (n : Nat) : List Char :=
  (".".intercalate ((Bytes.ofNat 4 n).map fun b => toString b.toNat)).toList

/-! ### Version six -/

/-- The two pieces that an address of version four makes at the end of one of version six: four
decimal numbers of one byte, without zeros in front. -/
def ipv4Pieces? (cs : List Char) : Option (List Nat) := do
  let byte? (part : List Char) : Option Nat :=
    if part.isEmpty || !part.all Char.isDigit || (part.length > 1 && part.head? == some '0') then
      Option.none
    else (inBase 10 part).filter (· < 256)
  match ← (splitAtPoints cs).mapM byte? with
  | [a, b, c, d] => some [a * 256 + b, c * 256 + d]
  | _ => Option.none

/-- The pieces of an address of version six from one on, a gap of zeros as `none`. `count` is the
number of pieces before, the gap included. -/
def ipv6Items : Nat → Nat → Bool → List Char → Option (List (Option Nat))
  | 0, _, _, _ => Option.none
  | _ + 1, _, _, [] => some []
  | fuel + 1, count, gap, c :: rest =>
    if count = 8 then Option.none
    else if c = ':' then
      if gap then Option.none
      else (ipv6Items fuel (count + 1) true rest).map (Option.none :: ·)
    else
      let cs := c :: rest
      let digits := (cs.take 4).takeWhile fun c => (Percent.value? c).isSome
      let piece := (inBase 16 digits).getD 0
      match cs.drop digits.length with
      | [] => some [some piece]
      | '.' :: _ =>
        if digits.isEmpty || 6 < count then Option.none
        else (ipv4Pieces? cs).map (·.map some)
      | ':' :: rest =>
        if digits.isEmpty || rest.isEmpty then Option.none
        else (ipv6Items fuel (count + 1) gap rest).map (some piece :: ·)
      | _ => Option.none

/-- An address of version six, between its brackets. -/
def ipv6? (cs : List Char) : Option (List Nat) := do
  let items ←
    match cs with
    | ':' :: ':' :: rest => (ipv6Items (cs.length + 1) 1 true rest).map (Option.none :: ·)
    | ':' :: _ => Option.none
    | [_] => Option.none
    | [] => Option.none
    | cs => ipv6Items (cs.length + 1) 0 false cs
  let missing := 8 - (items.filter Option.isSome).length
  if items.any Option.isNone then
    some (items.flatMap fun item =>
      match item with
      | some piece => [piece]
      | Option.none => List.replicate missing 0)
  else if items.length = 8 then some (items.filterMap id)
  else Option.none

/-- How many zeros a list begins with. -/
def leadingZeros (l : List Nat) : Nat := (l.takeWhile (· == 0)).length

/-- The length of the longest run of zeros, and where the first one of that length begins. -/
def longestZeros : Nat → List Nat → Nat × Nat
  | _, [] => (0, 0)
  | start, n :: rest =>
    let here := leadingZeros (n :: rest)
    let later := longestZeros (start + 1) rest
    if here ≠ 0 ∧ later.1 ≤ here then (here, start) else later

/-- Pieces between colons. -/
def piecesText (pieces : List Nat) : List Char :=
  (":".intercalate (pieces.map fun n => String.ofList (Nat.toDigits 16 n))).toList

/-- The text of an address of version six. The first of the longest runs of at least two zeros is
left out. -/
def ipv6Text (pieces : List Nat) : List Char :=
  let (length, start) := longestZeros 0 pieces
  if 2 ≤ length then
    piecesText (pieces.take start) ++ [':', ':'] ++ piecesText (pieces.drop (start + length))
  else piecesText pieces

/-! ### Reading and writing -/

/-- The text of a host. -/
def text : Host → List Char
  | .none => []
  | .name text => text
  | .ipv4 address => ipv4Text address
  | .ipv6 pieces => '[' :: (ipv6Text pieces ++ [']'])

/-- The characters that no name can have. -/
def forbidden : List Char :=
  ['\x00', '\t', '\n', '\r', ' ', '#', '/', ':', '<', '>', '?', '@', '[', '\\', ']', '^', '|']

/-- The character cannot stand in a name. -/
def isForbidden (c : Char) : Bool := forbidden.contains c

/-- The characters that the name of a server cannot have. -/
def isForbiddenInDomain (c : Char) : Bool :=
  isForbidden c || Percent.isControl c || c == '%' || 0x80 ≤ c.toNat

/-- A text between brackets is an address of version six. -/
def bracketed? (cs : List Char) : Option (Except HostFault Host) :=
  match cs with
  | '[' :: rest =>
    if rest.getLast? = some ']' then
      match ipv6? rest.dropLast with
      | some pieces => some (.ok (.ipv6 pieces))
      | Option.none => some (.error .ipv6)
    else some (.error .ipv6)
  | _ => Option.none

/-- The host of a scheme that has servers. Characters beyond ASCII are among those that a domain
cannot have. -/
def ofServerText (cs : List Char) : Except HostFault Host :=
  match bracketed? cs with
  | some host => host
  | Option.none =>
    match Utf8.decode? (Percent.decode cs) with
    | Option.none => .error .domain
    | some decoded =>
      let lowered := decoded.map Char.toLower
      if lowered.any isForbiddenInDomain then .error .domain
      else if lowered = [] then .error .empty
      else if endsInNumber lowered then
        match ipv4? lowered with
        | some address => .ok (.ipv4 address)
        | Option.none => .error .ipv4
      else .ok (.name lowered)

/-- The host of any other scheme. -/
def ofPlainText (cs : List Char) : Except HostFault Host :=
  match bracketed? cs with
  | some host => host
  | Option.none =>
    if cs.any isForbidden then .error .character
    else if cs = [] then .ok .none
    else .ok (.name (Percent.encode Percent.isControl cs))

end Host

end WalletApi
