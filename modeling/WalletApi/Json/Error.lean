import WalletApi.Json.Document
import WalletApi.Json.Value

/-!
# Why a document is not the value asked for

A text fails to be read because it is no JSON, or because it is JSON of the wrong shape. The second
kind of failure has a message that tells what was found and what was expected.
-/

namespace WalletApi.Json

/-- What was found where another value was expected; of a container only its kind. -/
inductive Found
  | null
  | bool (b : Bool)
  | number (n : Number)
  | string (s : String)
  | sequence
  | map

/-- The wording of what was found. -/
def Found.message : Found → String
  | .null => "null"
  | .bool b => if b then "boolean \x60true\x60" else "boolean \x60false\x60"
  | .number (.integer n) => "integer \x60" ++ toString n ++ "\x60"
  | .number (.float x) => "floating point \x60" ++ x.exponentText ++ "\x60"
  | .string s => "string " ++ Text.quote s
  | .sequence => "sequence"
  | .map => "map"

/-- How JSON can have the wrong shape. -/
inductive Mismatch
  /-- A value of another kind. -/
  | type (found : Found) (expected : String)
  /-- A value of the right kind that is out of range. -/
  | value (found : Found) (expected : String)
  /-- A record written as an array that is too short. -/
  | length (count : Nat) (expected : String)
  | missingField (name : String)
  | duplicateField (name : String)
  | unknownVariant (name : String) (known : List String)
  /-- A text that its own reader refuses. -/
  | refused (reason : String)

/-- A name between grave accents. -/
def ticked (name : String) : String := "\x60" ++ name ++ "\x60"

/-- The names that could have stood in a place. -/
def alternatives : List String → String
  | [] => "there are no variants"
  | [a] => "expected " ++ ticked a
  | [a, b] => "expected " ++ ticked a ++ " or " ++ ticked b
  | l => "expected one of " ++ ", ".intercalate (l.map ticked)

/-- The wording of a mismatch. -/
def Mismatch.message : Mismatch → String
  | .type found expected => "invalid type: " ++ found.message ++ ", expected " ++ expected
  | .value found expected => "invalid value: " ++ found.message ++ ", expected " ++ expected
  | .length count expected => "invalid length " ++ toString count ++ ", expected " ++ expected
  | .missingField name => "missing field " ++ ticked name
  | .duplicateField name => "duplicate field " ++ ticked name
  | .unknownVariant name known => "unknown variant " ++ ticked name ++ ", " ++ alternatives known
  | .refused reason => reason

/-- **Why a text could not be read.** -/
inductive ReadError
  | fault (fault : Fault)
  | mismatch (mismatch : Mismatch)

end WalletApi.Json
