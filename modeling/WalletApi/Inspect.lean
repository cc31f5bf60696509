import WalletApi.Text.Quoted

/-!
# Values shown for inspection

Messages and test failures show a value with its structure: records with the names of their fields,
lists, maps, and values wrapped in a name. A value is turned into a tree first, and the tree is laid
out on one line or on indented lines, where each entry of a list, map, record or wrapper stands on a
line of its own and ends in a comma.
-/

namespace WalletApi

/-- **The structure of a value that is shown.** -/
inductive Shown
  /-- Text that has no parts. -/
  | atom (text : String)
  /-- A list of values. -/
  | list (items : List Shown)
  /-- Keys with their values. -/
  | map (entries : List (String × Shown))
  /-- A name with named fields. -/
  | record (name : String) (fields : List (String × Shown))
  /-- A name around one value. -/
  | wrapped (name : String) (inner : Shown)
  /-- A name before a value. -/
  | labelled (name : String) (inner : Shown)

namespace Shown

/-- A quoted text. -/
def quoted (s : String) : Shown := .atom (Text.quote s)

/-- A number. -/
def nat (n : Nat) : Shown := .atom (toString n)

/-- A number with a sign. -/
def int (n : Int) : Shown := .atom (toString n)

/-- A truth value. -/
def bool (b : Bool) : Shown := .atom (if b then "true" else "false")

/-- A value that may be missing. -/
def option {α : Type} (f : α → Shown) : Option α → Shown
  | none => .atom "None"
  | some a => .wrapped "Some" (f a)

/-! ### On one line -/

/-- Entries between commas. -/
def separated : List String → String
  | [] => ""
  | [s] => s
  | s :: rest => s ++ ", " ++ separated rest

/-- Entries between braces, after a name. -/
def braced (name : String) (entries : List String) : String :=
  if entries.isEmpty then name else name ++ " \x7b " ++ separated entries ++ " \x7d"

mutual
/-- A value on one line. -/
def oneLine : Shown → String
  | .atom text => text
  | .list items => "[" ++ separated (oneLines items) ++ "]"
  | .map entries => "\x7b" ++ separated (oneLineEntries entries) ++ "\x7d"
  | .record name fields => braced name (oneLineEntries fields)
  | .wrapped name inner => name ++ "(" ++ oneLine inner ++ ")"
  | .labelled name inner => name ++ " " ++ oneLine inner

/-- Each of the values on one line. -/
def oneLines : List Shown → List String
  | [] => []
  | s :: rest => oneLine s :: oneLines rest

/-- Each of the values on one line, after its key. -/
def oneLineEntries : List (String × Shown) → List String
  | [] => []
  | (key, s) :: rest => (key ++ ": " ++ oneLine s) :: oneLineEntries rest
end

/-! ### On indented lines -/

/-- The start of a line at a depth of nesting. -/
def indent : Nat → String
  | 0 => "\n"
  | n + 1 => indent n ++ "    "

/-- Entries on lines of their own between two brackets, which close up when there are none. -/
def block (depth : Nat) (opening closing : String) (entries : List String) : String :=
  if entries.isEmpty then opening ++ closing
  else
    opening ++ String.join (entries.map fun e => indent (depth + 1) ++ e ++ ",") ++ indent depth
      ++ closing

mutual
/-- A value on indented lines, at a depth of nesting. -/
def indented (depth : Nat) : Shown → String
  | .atom text => text
  | .list items => block depth "[" "]" (indentedAll (depth + 1) items)
  | .map entries => block depth "\x7b" "\x7d" (indentedEntries (depth + 1) entries)
  | .record name fields =>
    if fields.isEmpty then name
    else block depth (name ++ " \x7b") "\x7d" (indentedEntries (depth + 1) fields)
  | .wrapped name inner => block depth (name ++ "(") ")" [indented (depth + 1) inner]
  | .labelled name inner => name ++ " " ++ indented depth inner

/-- Each of the values on indented lines. -/
def indentedAll (depth : Nat) : List Shown → List String
  | [] => []
  | s :: rest => indented depth s :: indentedAll depth rest

/-- Each of the values on indented lines, after its key. -/
def indentedEntries (depth : Nat) : List (String × Shown) → List String
  | [] => []
  | (key, s) :: rest => (key ++ ": " ++ indented depth s) :: indentedEntries depth rest
end

end Shown

end WalletApi
