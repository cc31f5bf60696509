import WalletApi.Inspect
import WalletApi.Json.Number
import WalletApi.SortedMap

/-!
# JSON values and their text

A value as it is written, with the members of an object in the order in which they stand. The text
holds no blanks; a string escapes its quotes, backslashes and control characters and nothing else.
-/

namespace WalletApi.Json

/-- **A JSON value.** -/
inductive Value
  | null
  | bool (b : Bool)
  | number (n : Number)
  | string (s : String)
  | array (items : List Value)
  | object (members : List (String × Value))

instance : Inhabited Value := ⟨.null⟩

/-- **Free-form data attached to a record**: an object with its members sorted by key. -/
abbrev Metadata := SortedMap Value

namespace Value

/-- A natural number. -/
def nat (n : Nat) : Value := .number (.integer n)

/-- A whole number. -/
def int (n : Int) : Value := .number (.integer n)

/-- A list of strings. -/
def strings (l : List String) : Value := .array (l.map .string)

/-- A sorted map, its values written by a function. -/
def map {α : Type} (f : α → Value) (m : SortedMap α) : Value :=
  .object (m.entries.map fun e => (e.1, f e.2))

/-- Free-form data. -/
def metadata (m : Metadata) : Value := .object m.entries

/-! ### Equality -/

mutual
/-- Two values are equal. Numbers are compared in kind and in value. -/
def same : Value → Value → Bool
  | .null, .null => true
  | .bool a, .bool b => a == b
  | .number m, .number n => m == n
  | .string s, .string t => s == t
  | .array a, .array b => sameItems a b
  | .object a, .object b => sameMembers a b
  | _, _ => false

/-- Two lists of values are equal. -/
def sameItems : List Value → List Value → Bool
  | [], [] => true
  | v :: a, w :: b => same v w && sameItems a b
  | _, _ => false

/-- Two lists of members are equal, keys and values. -/
def sameMembers : List (String × Value) → List (String × Value) → Bool
  | [], [] => true
  | (k, v) :: a, (l, w) :: b => k == l && same v w && sameMembers a b
  | _, _ => false
end

instance : BEq Value := ⟨same⟩

/-! ### Text -/

/-- One character inside the quotes of a string. -/
def escaped (c : Char) : List Char :=
  if c = '"' then ['\\', '"']
  else if c = '\\' then ['\\', '\\']
  else if c = '\x08' then ['\\', 'b']
  else if c = '\x0c' then ['\\', 'f']
  else if c = '\n' then ['\\', 'n']
  else if c = '\r' then ['\\', 'r']
  else if c = '\t' then ['\\', 't']
  else if c.toNat < 0x20 then
    ['\\', 'u', '0', '0', Nat.digitChar (c.toNat / 16), Nat.digitChar (c.toNat % 16)]
  else [c]

/-- A string with its quotes. -/
def stringChars (s : String) : List Char := '"' :: (s.toList.flatMap escaped ++ ['"'])

mutual
/-- The characters of a value. -/
def chars : Value → List Char
  | .null => "null".toList
  | .bool b => (if b then "true" else "false").toList
  | .number n => n.text.toList
  | .string s => stringChars s
  | .array [] => ['[', ']']
  | .array (v :: rest) => '[' :: (chars v ++ itemChars rest)
  | .object [] => ['\x7b', '\x7d']
  | .object ((k, v) :: rest) => '\x7b' :: (stringChars k ++ ':' :: (chars v ++ memberChars rest))

/-- The items that follow the first one, each after a comma, and the closing bracket. -/
def itemChars : List Value → List Char
  | [] => [']']
  | v :: rest => ',' :: (chars v ++ itemChars rest)

/-- The members that follow the first one, each after a comma, and the closing brace. -/
def memberChars : List (String × Value) → List Char
  | [] => ['\x7d']
  | (k, v) :: rest => ',' :: (stringChars k ++ ':' :: (chars v ++ memberChars rest))
end

/-- **The text of a value.** -/
def text (v : Value) : String := String.ofList v.chars

/-! ### Values shown for inspection -/

mutual
/-- How a value is shown. -/
def shown : Value → Shown
  | .null => .atom "Null"
  | .bool b => .atom (if b then "Bool(true)" else "Bool(false)")
  | .number n => .atom ("Number(" ++ n.text ++ ")")
  | .string s => .atom ("String(" ++ Text.quote s ++ ")")
  | .array items => .labelled "Array" (.list (shownItems items))
  | .object members => .labelled "Object" (.map (shownMembers members))

/-- How each of the values is shown. -/
def shownItems : List Value → List Shown
  | [] => []
  | v :: rest => shown v :: shownItems rest

/-- How each of the members is shown. -/
def shownMembers : List (String × Value) → List (String × Shown)
  | [] => []
  | (k, v) :: rest => (Text.quote k, shown v) :: shownMembers rest
end

end Value

/-- How free-form data is shown. -/
def Metadata.shown (m : Metadata) : Shown := .map (Value.shownMembers m.entries)

end WalletApi.Json
