import WalletApi.Text.Quoted

/-!
# Why settings could not be loaded

Settings come from a file and from the environment. Loading fails when the file is missing or cannot
be read, and when a value cannot be brought to the type of its field.
-/

namespace WalletApi

/-- Where a setting was found. -/
inductive Origin
  | file (name : String)
  | environment
deriving DecidableEq

/-- The wording of an origin. -/
def Origin.text : Origin → String
  | .file name => name
  | .environment => "the environment"

/-- A value that cannot be brought to the type of its field. -/
inductive BadValue
  | bool (b : Bool)
  | text (s : String)
  | integer (n : Int)
  /-- A number with a fraction, by its text. -/
  | float (digits : String)
  | list
  | table
  | missing
deriving DecidableEq

/-- The wording of a value. -/
def BadValue.message : BadValue → String
  | .bool b => if b then "boolean \x60true\x60" else "boolean \x60false\x60"
  | .text s => "string " ++ Text.quote s
  | .integer n =>
    (if n < 0x8000000000000000 then "64-bit integer \x60" else "64-bit unsigned integer \x60")
      ++ toString n ++ "\x60"
  | .float digits => "floating point \x60" ++ digits ++ "\x60"
  | .list => "sequence"
  | .table => "map"
  | .missing => "unit value"

/-- **Why settings could not be loaded.** -/
inductive SettingsFault
  | fileNotFound (path : String)
  | unknownFormat (path : String)
  | unreadableFile (name : String)
  /-- The file holds a value that is no table. -/
  | notTable (found : BadValue) (name : String)
  | wrongType (found : BadValue) (expected key : String) (origin : Option Origin)
deriving DecidableEq

/-- The wording of a fault. -/
def SettingsFault.message : SettingsFault → String
  | .fileNotFound path => "configuration file \"" ++ path ++ "\" not found"
  | .unknownFormat path => "configuration file \"" ++ path ++ "\" is of no known format"
  | .unreadableFile name => "configuration file \"" ++ name ++ "\" cannot be read"
  | .notTable found name =>
    "invalid type: " ++ found.message ++ ", expected a map in " ++ name ++ " in " ++ name
  | .wrongType found expected key origin =>
    "invalid type: " ++ found.message ++ ", expected " ++ expected ++ " for key \x60" ++ key
      ++ "\x60"
      ++ (match origin with
        | some o => " in " ++ o.text
        | none => "")

end WalletApi
