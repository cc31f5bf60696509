import WalletApi.Client.Config
import WalletApi.Json.Reader
import WalletApi.Settings.Flat
import WalletApi.Settings.Toml

/-!
# Settings

Settings are the flat form of a client's configuration, with every field optional. They are loaded
from a file, if one is given, and from the environment, whose variables win over the file. The
ending of the file's name tells its format; a name that is no file is tried with each known ending.

TOML and JSON are read here. The readers of the other four formats are given to the loader
(`WalletApi.FormatReaders`), and nothing is supposed of them: what a file holds at its top is what
the reader of its format makes of its text. Times are whole seconds.
-/

namespace WalletApi

/-- **Settings of a client.** Times are in seconds. -/
structure ClientSettings where
  baseUrl : Option String
  timeoutSecs : Option Nat
  connectTimeoutSecs : Option Nat
  xpriv : Option String
  xpub : Option String
  accessKey : Option String
deriving DecidableEq

namespace ClientSettings

/-- No setting at all. -/
def empty : ClientSettings := ⟨none, none, none, none, none, none⟩

/-- The configuration of settings, with defaults for what they leave open. -/
def toConfig (s : ClientSettings) : ClientConfig × List LogEvent :=
  let (credential, log) := Credential.select s.xpriv s.xpub s.accessKey
  (⟨s.baseUrl.getD ClientConfig.default.baseUrl,
    (s.timeoutSecs.map (· * 1000)).getD ClientConfig.default.timeout,
    (s.connectTimeoutSecs.map (· * 1000)).getD ClientConfig.default.connectTimeout,
    credential⟩, log)

/-- How settings are shown. -/
def shown (s : ClientSettings) : Shown :=
  .record "ClientSettings"
    [("base_url", .option .quoted s.baseUrl), ("timeout_secs", .option .nat s.timeoutSecs),
      ("connect_timeout_secs", .option .nat s.connectTimeoutSecs),
      ("xpriv", Credential.shownSecret s.xpriv), ("xpub", .option .quoted s.xpub),
      ("access_key", Credential.shownSecret s.accessKey)]

/-! ### JSON -/

/-- A value that may be missing, as `null` then. -/
def nullable {α : Type} (f : α → Json.Value) : Option α → Json.Value
  | none => .null
  | some a => f a

/-- Settings as JSON, every field included. -/
def toValue (s : ClientSettings) : Json.Value :=
  .object [("base_url", nullable .string s.baseUrl), ("timeout_secs", nullable .nat s.timeoutSecs),
    ("connect_timeout_secs", nullable .nat s.connectTimeoutSecs),
    ("xpriv", nullable .string s.xpriv), ("xpub", nullable .string s.xpub),
    ("access_key", nullable .string s.accessKey)]

/-- A field that may be missing or `null`. -/
def optionalField {α : Type} (name : String) (r : Json.Reader α) : Json.Fields (Option α) :=
  .withDefault name (.optional r) none

/-- Settings read from JSON. -/
def reader : Json.Reader ClientSettings :=
  Json.Fields.record "ClientSettings"
    (Json.Fields.pure ClientSettings.mk
      |>.and (optionalField "base_url" .string)
      |>.and (optionalField "timeout_secs" .u64)
      |>.and (optionalField "connect_timeout_secs" .u64)
      |>.and (optionalField "xpriv" .string)
      |>.and (optionalField "xpub" .string)
      |>.and (optionalField "access_key" .string))

end ClientSettings

/-! ### Files -/

/-- A file with settings: its name and its text. -/
structure SettingsFile where
  name : String
  text : String

/-- A format of files with settings. -/
inductive SettingsFormat
  | toml
  | json
  | yaml
  | ini
  | ron
  | json5
deriving DecidableEq

namespace SettingsFormat

/-- The formats by the endings of file names. -/
def endings : List (String × SettingsFormat) :=
  [("toml", .toml), ("json", .json), ("yaml", .yaml), ("yml", .yaml), ("ini", .ini), ("ron", .ron),
    ("json5", .json5)]

/-- The ending of a file's name: what follows the last point, unless that is the first character. -/
def endingOf (name : String) : String :=
  let cs := name.toList
  let ending := (cs.reverse.takeWhile (· != '.')).reverse
  if ending.length + 1 < cs.length then String.ofList ending else ""

/-- The format of a file. -/
def ofName? (name : String) : Option SettingsFormat := endings.lookup (endingOf name)

end SettingsFormat

/-! ### What files hold -/

/-- **What stands at the top of a file**: a table by its entries, or a value that is no table. -/
inductive SettingsRoot
  | table (entries : List (String × SettingValue))
  | value (found : BadValue)

/-- A JSON value as the value of a setting. -/
def SettingValue.ofJson : Json.Value → SettingValue
  | .null => .missing
  | .bool b => .bool b
  | .number (.integer n) => .integer n
  | .number (.float x) => .float x
  | .string s => .text s
  | .array _ => .list
  | .object _ => .table

/-- A JSON value at the top of a file. -/
def SettingsRoot.ofJson : Json.Value → SettingsRoot
  | .null => .value .missing
  | .bool b => .value (.bool b)
  | .number (.integer n) => .value (.integer n)
  | .number (.float x) => .value (.float x.plainText)
  | .string s => .value (.text s)
  | .array _ => .value .list
  | .object members => .table (members.map fun m => (m.1, SettingValue.ofJson m.2))

/-- **Readers of the formats** that are not described here. A reader gives what stands at the top of
a text, and nothing where the text is not of its format. -/
structure FormatReaders where
  yaml : List Char → Option SettingsRoot
  ini : List Char → Option SettingsRoot
  ron : List Char → Option SettingsRoot
  json5 : List Char → Option SettingsRoot

/-- The readers of flat files, for want of others. They refuse all other files. -/
def FormatReaders.flat : FormatReaders where
  yaml cs := (Flat.yaml? cs).map .table
  ini cs := (Flat.ini? cs).map .table
  ron cs := (Flat.ron? cs).map .table
  json5 cs := (Flat.json5? cs).map .table

/-- What stands at the top of a text of some format. -/
def FormatReaders.root? (readers : FormatReaders) (format : SettingsFormat) (cs : List Char) :
    Option SettingsRoot :=
  match format with
  | .toml => (Toml.read? cs).map .table
  | .json =>
    match Json.read Json.Reader.value (Utf8.encode cs) with
    | .ok v => some (SettingsRoot.ofJson v)
    | .error _ => none
  | .yaml => readers.yaml cs
  | .ini => readers.ini cs
  | .ron => readers.ron cs
  | .json5 => readers.json5 cs

namespace SettingsFile

/-- A text without the byte order mark in front. -/
def withoutMark (cs : List Char) : List Char :=
  match cs with
  | '\ufeff' :: rest => rest
  | _ => cs

/-- The entries at the top of a file. -/
def entries (readers : FormatReaders) (f : SettingsFile) (format : SettingsFormat) :
    Except SettingsFault (List (String × SettingValue)) :=
  match readers.root? format (withoutMark f.text.toList) with
  | some (.table entries) => .ok entries
  | some (.value found) => .error (.notTable found f.name)
  | none => .error (.unreadableFile f.name)

/-- The parts of a path between its slashes. -/
def pathParts (path : String) : List String := (path.toList.splitOn '/').map String.ofList

/-- The steps of a path that lead somewhere, in order. -/
def pathSteps (path : String) : List String :=
  (pathParts path).filter fun s => s != "" && s != "."

/-- The path names a file and not a directory. -/
def namesFile (path : String) : Bool :=
  match (pathParts path).getLast? with
  | some last => last != "" && last != "."
  | none => false

/-- The file that a path leads to among the files of a directory. -/
def at? (files : List SettingsFile) (path : String) : Option SettingsFile :=
  match pathSteps path with
  | [name] => files.find? fun f => f.name == name
  | _ => none

/-- The file that a path leads to, by itself or with a known ending, and its format. -/
def locate (files : List SettingsFile) (path : String) :
    Except SettingsFault (SettingsFile × SettingsFormat) :=
  let exact := if namesFile path then at? files path else none
  match exact with
  | some f =>
    match SettingsFormat.ofName? f.name with
    | some format => .ok (f, format)
    | none => .error (.unknownFormat path)
  | none =>
    let stem := "/".intercalate (pathSteps path)
    let found := SettingsFormat.endings.findSome? fun (ending, format) =>
      (at? files (stem ++ "." ++ ending)).map (·, format)
    match found with
    | some (f, format) => .ok (f, format)
    | none => .error (.fileNotFound path)

end SettingsFile

/-! ### Layers -/

/-- A value with the place where it was found. A table is put together from what it holds, so that
it has no place of its own. -/
abbrev Placed := Option Origin × SettingValue

/-- The character may stand in a name that a key goes through. -/
def isNameChar (c : Char) : Bool := c.isAlphanum || c == '_' || c == '-'

/-- The text in brackets, blanks apart, is a whole number. -/
def isIndex (cs : List Char) : Bool :=
  let isBlank (c : Char) : Bool := c == ' ' || c == '\t'
  let cs := ((cs.dropWhile isBlank).reverse.dropWhile isBlank).reverse
  let (_, digits) := SettingValue.signed cs
  cs.head? != some '+' && digits != [] && digits.all Char.isDigit

/-- The text goes on with steps: a point and a name, or a whole number in brackets. -/
def areSteps : Nat → List Char → Bool
  | _, [] => true
  | 0, _ => false
  | fuel + 1, c :: rest =>
    if c = '.' then
      rest.takeWhile isNameChar != [] && areSteps fuel (rest.dropWhile isNameChar)
    else if c = '[' then
      match rest.dropWhile (· != ']') with
      | [] => false
      | _ :: after => isIndex (rest.takeWhile (· != ']')) && areSteps fuel after
    else false

/-- An entry of the settings: the name that its key sets, and the value. A key that goes on with
steps sets a value inside a table or a list, and of that only the kind matters. -/
def entryOf (key : String) (origin : Origin) (v : SettingValue) : String × Placed :=
  let cs := key.toList
  let name := String.ofList (cs.takeWhile isNameChar)
  let steps := cs.dropWhile isNameChar
  let whole : Placed :=
    match v with
    | .table => (none, .table)
    | v => (some origin, v)
  if name = "" ∨ areSteps steps.length steps = false then (key, whole)
  else
    match steps.head? with
    | some '.' => (name, none, .table)
    | some _ => (name, none, .list)
    | none => (key, whole)

/-- What the name of every variable with a setting begins with, in lowercase. -/
def variableOpening : List Char := "spv_wallet_".toList

/-- The small form of a letter, as far as it is ASCII; the sign for kelvin is a capital letter too.
-/
def smallLetter (c : Char) : Char := if c = '\u212a' then 'k' else c.toLower

/-- The key that a variable sets, if it sets one. -/
def keyOfVariable? (name : String) : Option String :=
  let lowered := name.toList.map smallLetter
  if variableOpening.isPrefixOf lowered then
    some (String.ofList (lowered.drop variableOpening.length))
  else none

/-- The entries of the environment, by key. -/
def environmentEntries (environment : List (String × String)) : List (String × Placed) :=
  environment.filterMap fun v =>
    (keyOfVariable? v.1).map fun key => entryOf key .environment (.text v.2)

/-- The entries of a file, by key; where a key occurs twice its last value is found first. -/
def fileEntries (readers : FormatReaders) (f : SettingsFile) (format : SettingsFormat) :
    Except SettingsFault (List (String × Placed)) :=
  (f.entries readers format).map fun l => l.reverse.map fun e => entryOf e.1 (.file f.name) e.2

namespace ClientSettings

/-- The text of a key, if it is set. -/
def textOf (entries : List (String × Placed)) (key : String) :
    Except SettingsFault (Option String) :=
  match entries.lookup key with
  | none => .ok none
  | some (origin, v) => v.toText key origin

/-- The count of a key, if it is set. -/
def countOf (entries : List (String × Placed)) (key : String) :
    Except SettingsFault (Option Nat) :=
  match entries.lookup key with
  | none => .ok none
  | some (origin, v) => v.toCount key origin

/-- The settings of entries, where the first entry of a key counts. -/
def ofEntries (entries : List (String × Placed)) : Except SettingsFault ClientSettings := do
  let baseUrl ← textOf entries "base_url"
  let timeoutSecs ← countOf entries "timeout_secs"
  let connectTimeoutSecs ← countOf entries "connect_timeout_secs"
  let xpriv ← textOf entries "xpriv"
  let xpub ← textOf entries "xpub"
  let accessKey ← textOf entries "access_key"
  pure ⟨baseUrl, timeoutSecs, connectTimeoutSecs, xpriv, xpub, accessKey⟩

/-- **The settings of a file and the environment.** The environment comes first, so that it wins. -/
def load (files : List SettingsFile) (path : Option String) (environment : List (String × String))
    (readers : FormatReaders := .flat) : Except SettingsFault ClientSettings := do
  let fromFile ←
    match path with
    | none => pure []
    | some path =>
      let (f, format) ← SettingsFile.locate files path
      fileEntries readers f format
  ofEntries (environmentEntries environment ++ fromFile)

end ClientSettings

end WalletApi
