import WalletApi.Settings.Value

/-!
# Settings in flat files

Besides TOML and JSON, settings are kept in YAML, INI, RON and JSON5. How these four are read as a
whole is not described here: whoever loads settings brings readers along
(`WalletApi.FormatReaders`). The readers below serve where none are brought. They know flat files
only, in which

* an entry is a name and a scalar, one on each line in YAML and INI, and one after the other in the
  single object of RON and JSON5;
* a name is made of letters, digits and underscores, stands without quotes and occurs once;
* a scalar is a whole number in decimal, a word of the format, or printable ASCII between quotes
  with no quote or backslash in it. In INI all values are texts and stand without quotes, and in
  YAML a text may do so if it begins like a name and goes on with characters of names and the signs
  of an address.

## What is left out

Everything else is refused, also where it is well-formed: indented lines, lists and nested tables,
flow collections, block texts and texts of several lines, anchors, tags, directives and further
documents, escapes, raw strings, comments behind a value or inside an object, fractions, signs and
other bases, optional values, names between quotes, and line ends with a carriage return. Of a
section in INI only the name is kept, since of a table only its kind matters.
-/

namespace WalletApi.Flat

/-- The entries of a file. -/
abbrev Entries := List (String × SettingValue)

/-! ### Names and scalars -/

/-- Words that are no names, since some format takes them for a value of another kind. -/
def reserved : List String :=
  ["null", "true", "false", "yes", "no", "on", "off", "y", "n", "inf", "infinity", "nan", "some",
    "none"]

/-- The character may stand in a name. -/
def isNameChar (c : Char) : Bool := c.isAlphanum || c == '_'

/-- The text is a name. -/
def isName (cs : List Char) : Bool :=
  match cs with
  | [] => false
  | c :: _ =>
    !c.isDigit && cs.all isNameChar && !reserved.contains (String.ofList (cs.map Char.toLower))

/-- The text begins like a name and goes on with characters of names, points, dashes, slashes and
colons, of which the last is no colon. -/
def isPlain (cs : List Char) : Bool :=
  match cs with
  | [] => false
  | c :: _ =>
    !c.isDigit && isNameChar c && cs.all (fun c => isNameChar c || ['.', '-', '/', ':'].contains c)
      && cs.getLast? != some ':' && !reserved.contains (String.ofList (cs.map Char.toLower))

/-- The character is printable ASCII. -/
def isPrintable (c : Char) : Bool := ' '.toNat ≤ c.toNat && c.toNat ≤ '~'.toNat

/-- The character may stand in a text: it is printable, and no quote or backslash. -/
def isTextChar (c : Char) : Bool := isPrintable c && c != '"' && c != '\'' && c != '\\'

/-- **The scalars of a format**: the quotes around its texts, its words, and which texts stand
without quotes. -/
structure Scalars where
  quotes : List Char
  words : List (String × SettingValue)
  bare : List Char → Bool

/-- A text between quotes. -/
def quoted? (quotes : List Char) : List Char → Option SettingValue
  | [] => none
  | quote :: rest =>
    if quotes.contains quote && rest.getLast? == some quote && rest.dropLast.all isTextChar then
      some (.text (String.ofList rest.dropLast))
    else none

/-- Digits without zeros in front, of a number that fits. -/
def digits? (cs : List Char) : Option SettingValue :=
  let n : Int := SettingValue.ofDigits cs
  if cs != [] && cs.all Char.isDigit && (cs.head? != some '0' || cs.length == 1)
      && SettingValue.fitsSigned n then
    some (.integer n)
  else none

/-- A scalar. -/
def Scalars.read? (s : Scalars) (cs : List Char) : Option SettingValue :=
  let bare := if s.bare cs then some (.text (String.ofList cs)) else none
  (quoted? s.quotes cs).or ((digits? cs).or ((s.words.lookup (String.ofList cs)).or bare))

/-- The entries, if no name occurs twice. -/
def distinct? (entries : Entries) : Option Entries :=
  if (entries.map (·.1)).Nodup then some entries else none

/-! ### Lines -/

/-- The lines that hold something: they are not empty and no comments. -/
def contentLines (marks : List Char) (cs : List Char) : List (List Char) :=
  (cs.splitOn '\n').filter fun line =>
    match line with
    | [] => false
    | c :: rest => !(marks.contains c && rest.all isPrintable)

/-- A line without the spaces around it. -/
def unspaced (line : List Char) : List Char :=
  ((line.dropWhile (· == ' ')).reverse.dropWhile (· == ' ')).reverse

/-- What stands in front of a sign, and what follows it. -/
def splitAtSign? (sign : Char) (line : List Char) : Option (List Char × List Char) :=
  match line.dropWhile (· != sign) with
  | [] => none
  | _ :: rest => some (line.takeWhile (· != sign), rest)

/-- The scalars of YAML. -/
def yamlScalars : Scalars where
  quotes := ['"', '\'']
  words := [("null", .missing), ("~", .missing), ("true", .bool true), ("false", .bool false)]
  bare := isPlain

/-- An entry with a colon and a space. -/
def colonEntry? (line : List Char) : Option (String × SettingValue) := do
  let (name, value) ← splitAtSign? ':' line
  if isName name && value.head? == some ' ' then
    (yamlScalars.read? (unspaced value)).map (String.ofList name, ·)
  else none

/-- **The entries of a flat file in YAML**, which may begin with a line that starts the document. -/
def yaml? (cs : List Char) : Option Entries :=
  match contentLines ['#'] cs with
  | ['-', '-', '-'] :: line :: rest => ((line :: rest).mapM colonEntry?).bind distinct?
  | lines => (lines.mapM colonEntry?).bind distinct?

/-- The character may stand in a text without quotes, as it begins no comment. -/
def isBareChar (c : Char) : Bool := isTextChar c && c != ';' && c != '#'

/-- An entry with an equals sign. -/
def equalsEntry? (line : List Char) : Option (String × SettingValue) := do
  let (name, value) ← splitAtSign? '=' line
  let name := unspaced name
  let value := unspaced value
  if isName name && value != [] && value.all isBareChar then
    some (String.ofList name, .text (String.ofList value))
  else none

/-- The name of a section, between brackets. -/
def section? : List Char → Option String
  | '[' :: rest =>
    if rest.getLast? == some ']' && isName rest.dropLast then some (String.ofList rest.dropLast)
    else none
  | _ => none

/-- The entries of lines with an equals sign. Those behind the name of a section belong to its
table. -/
def equalsEntries? (inSection : Bool) : List (List Char) → Option Entries
  | [] => some []
  | line :: rest =>
    match section? line with
    | some name => (equalsEntries? true rest).map ((name, .table) :: ·)
    | none => do
      let entry ← equalsEntry? line
      let others ← equalsEntries? inSection rest
      some (if inSection then others else entry :: others)

/-- **The entries of a flat file in INI.** -/
def ini? (cs : List Char) : Option Entries :=
  (equalsEntries? false (contentLines ['#', ';'] cs)).bind distinct?

/-! ### Objects -/

/-- The tokens of an object: texts with their quotes, words, and signs by themselves. -/
def tokens? : Nat → List Char → Option (List (List Char))
  | _, [] => some []
  | 0, _ :: _ => none
  | fuel + 1, c :: rest =>
    if [' ', '\n', '\t', '\r'].contains c then tokens? fuel rest
    else if c = '"' ∨ c = '\'' then
      match rest.dropWhile (· != c) with
      | [] => none
      | _ :: after => (tokens? fuel after).map ((c :: rest.takeWhile (· != c) ++ [c]) :: ·)
    else if isNameChar c then
      (tokens? fuel (rest.dropWhile isNameChar)).map ((c :: rest.takeWhile isNameChar) :: ·)
    else (tokens? fuel rest).map ([c] :: ·)

/-- A member of an object. -/
def member? (s : Scalars) (name value : List Char) : Option (String × SettingValue) :=
  if isName name then (s.read? value).map (String.ofList name, ·) else none

/-- The members of an object, up to the bracket that closes it; a comma may stand before that. -/
def members? (s : Scalars) (closing : Char) : List (List Char) → Option Entries
  | [name, [':'], value, [c]] => if c = closing then (member? s name value).map ([·]) else none
  | [name, [':'], value, [','], [c]] =>
    if c = closing then (member? s name value).map ([·]) else none
  | name :: [':'] :: value :: [','] :: rest => do
    let first ← member? s name value
    let others ← members? s closing rest
    some (first :: others)
  | _ => none

/-- An object between two brackets. -/
def object? (s : Scalars) (opening closing : Char) (cs : List Char) : Option Entries :=
  match tokens? cs.length cs with
  | some ([c] :: rest) => if c = opening then (members? s closing rest).bind distinct? else none
  | _ => none

/-- **The entries of a flat file in RON.** -/
def ron? (cs : List Char) : Option Entries :=
  object? ⟨['"'], [("true", .bool true), ("false", .bool false)], fun _ => false⟩ '(' ')' cs

/-- **The entries of a flat file in JSON5.** -/
def json5? (cs : List Char) : Option Entries :=
  let scalars : Scalars :=
    { quotes := ['"', '\'']
      words := [("null", .missing), ("true", .bool true), ("false", .bool false)]
      bare := fun _ => false }
  object? scalars '\x7b' '\x7d' cs

end WalletApi.Flat
