import WalletApi.Decimal.Shortest
import WalletApi.Settings.Fault

/-!
# Values of settings

Files and the environment hold values of several kinds. A field takes what can stand for a value of
its own type: a text takes numbers and truth values too, and a count takes truth values, texts that
write one, and numbers with a fraction, which are rounded.
-/

namespace WalletApi

/-- **A value of a setting.** Of lists and tables only the kind matters. -/
inductive SettingValue
  | missing
  | bool (b : Bool)
  | integer (n : Int)
  | float (x : Binary64)
  | infinite (negative : Bool)
  | notNumber
  | text (s : String)
  | list
  | table

namespace SettingValue

/-- The greatest count. -/
def maxCount : Nat := Nat.pow 2 64 - 1

/-- The words for one and for zero. -/
def countWords : List (String × Nat) :=
  [("true", 1), ("on", 1), ("yes", 1), ("false", 0), ("off", 0), ("no", 0)]

/-- The number that decimal digits write. -/
def ofDigits (cs : List Char) : Nat := cs.foldl (fun n c => n * 10 + (c.toNat - 48)) 0

/-- The count that a text writes: a word in any case, or digits after an optional plus sign. -/
def countOfText? (s : String) : Option Nat :=
  match countWords.lookup (String.ofList (s.toList.map Char.toLower)) with
  | some n => some n
  | none =>
    let digits :=
      match s.toList with
      | '+' :: rest => rest
      | cs => cs
    if digits ≠ [] ∧ digits.all Char.isDigit ∧ ofDigits digits ≤ maxCount then
      some (ofDigits digits)
    else none

/-- A number with a fraction as a count: rounded, halves up, and brought into range. -/
def countOfFloat (x : Binary64) : Nat :=
  if x.negative then 0
  else
    let (num, den) := x.ratio
    min ((2 * num + den) / (2 * den)) maxCount

/-- The refusal of a value. -/
def refuse {α : Type} (found : BadValue) (expected key : String) (origin : Option Origin) :
    Except SettingsFault α :=
  .error (.wrongType found expected key origin)

/-- A value as a count; a missing one is left out. -/
def toCount (key : String) (origin : Option Origin) :
    SettingValue → Except SettingsFault (Option Nat)
  | .missing => .ok none
  | .bool b => .ok (some (if b then 1 else 0))
  | .integer n =>
    if 0 ≤ n then .ok (some n.toNat)
    else refuse (.integer n) "an unsigned 64 bit or less integer" key origin
  | .float x => .ok (some (countOfFloat x))
  | .infinite negative => .ok (some (if negative then 0 else maxCount))
  | .notNumber => .ok (some 0)
  | .text s =>
    match countOfText? s with
    | some n => .ok (some n)
    | none => refuse (.text s) "an integer" key origin
  | .list => refuse .list "an integer" key origin
  | .table => refuse .table "an integer" key origin

/-- A value as a text; a missing one is left out. -/
def toText (key : String) (origin : Option Origin) :
    SettingValue → Except SettingsFault (Option String)
  | .missing => .ok none
  | .bool b => .ok (some (if b then "true" else "false"))
  | .integer n => .ok (some (toString n))
  | .float x => .ok (some x.plainText)
  | .infinite negative => .ok (some (if negative then "-inf" else "inf"))
  | .notNumber => .ok (some "NaN")
  | .text s => .ok (some s)
  | .list => refuse .list "a string" key origin
  | .table => refuse .table "a string" key origin

/-! ### Numbers of files -/

/-- The digits of a number without the underscores between them; none where an underscore does not
stand between two digits, or where there is no digit. -/
def spaced? (isDigit : Char → Bool) : List Char → Option (List Char)
  | [] => none
  | [c] => if isDigit c then some [c] else none
  | c :: '_' :: d :: rest =>
    if isDigit c && isDigit d then (spaced? isDigit (d :: rest)).map (c :: ·) else none
  | c :: rest => if isDigit c then (spaced? isDigit rest).map (c :: ·) else none

/-- A sign and what follows it. -/
def signed (cs : List Char) : Bool × List Char :=
  match cs with
  | '-' :: rest => (true, rest)
  | '+' :: rest => (false, rest)
  | _ => (false, cs)

/-- The number with given decimal digits and a power of ten, unless it exceeds the range. -/
def decimal? (negative : Bool) (digits : List Char) (exponent : Int) : Option Binary64 :=
  let n := ofDigits digits
  if n = 0 then some (.zero negative)
  else if 400 < exponent then none
  else if exponent + digits.length < -400 then some (.zero negative)
  else Binary64.round negative (n * Binary64.tenPowNat exponent) (Binary64.tenPowNat (-exponent))

/-- The exponent of a number, after its letter. -/
def exponent? (cs : List Char) : Option Int := do
  let (negative, digits) := signed cs
  let digits ← spaced? Char.isDigit digits
  let n := ofDigits digits
  some (if negative then -(n : Int) else n)

/-- A number with a fraction or an exponent, both kinds of digits without zeros in front. -/
def float? (cs : List Char) : Option SettingValue := do
  let (negative, cs) := signed cs
  let isPart (c : Char) : Bool := c.isDigit || c == '_'
  let whole ← spaced? Char.isDigit (cs.takeWhile isPart)
  let cs := cs.dropWhile isPart
  if whole.length > 1 && whole.head? == some '0' then none
  else
    let (fraction, cs) ←
      match cs with
      | '.' :: rest =>
        (spaced? Char.isDigit (rest.takeWhile isPart)).map fun f => (f, rest.dropWhile isPart)
      | _ => some ([], cs)
    let exponent ←
      match cs with
      | [] => some 0
      | c :: rest => if c = 'e' ∨ c = 'E' then exponent? rest else none
    (decimal? negative (whole ++ fraction) (exponent - fraction.length)).map .float

/-- A whole number of sixty-four bits in decimal, without zeros in front. -/
def integer? (cs : List Char) : Option Int := do
  let (negative, digits) := signed cs
  let digits ← spaced? Char.isDigit digits
  let n := ofDigits digits
  if digits.length > 1 && digits.head? == some '0' then none
  else some (if negative then -(n : Int) else n)

/-- The whole number fits sixty-four bits with a sign. -/
def fitsSigned (n : Int) : Bool := -0x8000000000000000 ≤ n && n < 0x8000000000000000

end SettingValue

end WalletApi
