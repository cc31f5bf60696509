import WalletApi.Calendar.Date
import WalletApi.Settings.Value
import WalletApi.Text.Hex

/-!
# Settings in TOML

A TOML file (version 1.1 of the format) holds keys with values, in tables that headers open. What
matters to settings is what stands at the top of the file, but all of it has to be well formed, and
no key may be defined twice.
-/

namespace WalletApi.Toml

/-! ### Blanks and comments -/

/-- A text without the blanks in front. -/
def skipBlanks (cs : List Char) : List Char := cs.dropWhile fun c => c == ' ' || c == '\t'

/-- The character may stand in a string or comment as it is. -/
def isAllowed (c : Char) : Bool := c == '\t' || (0x20 ≤ c.toNat && c.toNat != 0x7f)

/-- A text without the end of a line in front. -/
def lineEnd? (cs : List Char) : Option (List Char) :=
  match cs with
  | '\n' :: rest => some rest
  | '\r' :: '\n' :: rest => some rest
  | _ => none

/-- A text without the comment in front. -/
def skipComment (cs : List Char) : List Char :=
  match cs with
  | '#' :: rest => rest.dropWhile isAllowed
  | _ => cs

/-- What follows a line, of which only blanks and a comment may be left. -/
def endOfLine? (cs : List Char) : Option (List Char) :=
  match skipComment (skipBlanks cs) with
  | [] => some []
  | cs => lineEnd? cs

/-- A text without the blanks, comments and line ends in front; `inComment` tells that a comment has
begun on the line. -/
def skipFrom (inComment : Bool) : List Char → List Char
  | [] => []
  | '\n' :: rest => skipFrom false rest
  | '\r' :: '\n' :: rest => skipFrom false rest
  | c :: rest =>
    if inComment then if isAllowed c then skipFrom true rest else c :: rest
    else if c = '#' then skipFrom true rest
    else if c = ' ' ∨ c = '\t' then skipFrom false rest
    else c :: rest

/-- A text without the blanks, comments and line ends in front. -/
def skipLines (cs : List Char) : List Char := skipFrom false cs

/-! ### Strings -/

/-- The character with a number given by hexadecimal digits. -/
def numbered? (digits : List Char) : Option Char := do
  let values ← digits.mapM Hex.value?
  let n := values.foldl (fun n v => n * 16 + v) 0
  if n < 0xd800 ∨ (0xdfff < n ∧ n < 0x110000) then some (Char.ofNat n) else none

/-- How many hexadecimal digits give the number of a character after the letter of an escape. -/
def escapeWidth? (c : Char) : Option Nat :=
  match c with
  | 'x' => some 2
  | 'u' => some 4
  | 'U' => some 8
  | _ => none

/-- The character of an escape after its backslash, and what follows it. -/
def escape? (cs : List Char) : Option (Char × List Char) :=
  match cs with
  | 'b' :: rest => some ('\x08', rest)
  | 't' :: rest => some ('\t', rest)
  | 'n' :: rest => some ('\n', rest)
  | 'f' :: rest => some ('\x0c', rest)
  | 'r' :: rest => some ('\r', rest)
  | 'e' :: rest => some ('\x1b', rest)
  | '"' :: rest => some ('"', rest)
  | '\\' :: rest => some ('\\', rest)
  | c :: rest => do
    let width ← escapeWidth? c
    let digits := rest.take width
    if digits.length < width then none else (numbered? digits).map (·, rest.drop width)
  | [] => none

/-- A string of one line after its opening quote; escapes count only between double quotes. -/
def oneLine? (quote : Char) : Nat → List Char → Option (List Char × List Char)
  | 0, _ => none
  | _ + 1, [] => none
  | fuel + 1, c :: rest =>
    if c = quote then some ([], rest)
    else if c = '\\' ∧ quote = '"' then do
      let (e, rest) ← escape? rest
      let (s, rest) ← oneLine? quote fuel rest
      some (e :: s, rest)
    else if isAllowed c then (oneLine? quote fuel rest).map fun (s, rest) => (c :: s, rest)
    else none

/-- A text without the line end that a backslash joins to the next line, and the blanks after it. -/
def joined? (cs : List Char) : Option (List Char) :=
  (lineEnd? (skipBlanks cs)).map fun rest =>
    rest.dropWhile fun c => c == ' ' || c == '\t' || c == '\n' || c == '\r'

/-- A string of several lines after its three opening quotes. Up to two quotes may stand before the
three that close it. -/
def manyLines? (quote : Char) : Nat → List Char → Option (List Char × List Char)
  | 0, _ => none
  | _ + 1, [] => none
  | fuel + 1, c :: rest =>
    if c = quote then
      let quotes := (c :: rest).takeWhile (· == quote)
      let after := (c :: rest).dropWhile (· == quote)
      if quotes.length < 3 then
        (manyLines? quote fuel after).map fun (s, rest) => (quotes ++ s, rest)
      else if 5 < quotes.length then none
      else some (quotes.drop 3, after)
    else if c = '\\' ∧ quote = '"' then
      match joined? rest with
      | some rest => manyLines? quote fuel rest
      | none => do
        let (e, rest) ← escape? rest
        let (s, rest) ← manyLines? quote fuel rest
        some (e :: s, rest)
    else
      match lineEnd? (c :: rest) with
      | some rest => (manyLines? quote fuel rest).map fun (s, rest) => ('\n' :: s, rest)
      | none =>
        if isAllowed c then (manyLines? quote fuel rest).map fun (s, rest) => (c :: s, rest)
        else none

/-- A string from its opening quotes on. -/
def string? (cs : List Char) : Option (List Char × List Char) :=
  match cs with
  | a :: b :: c :: rest =>
    if a = b ∧ b = c then manyLines? a (cs.length + 1) ((lineEnd? rest).getD rest)
    else oneLine? a (cs.length + 1) (b :: c :: rest)
  | a :: rest => oneLine? a (cs.length + 1) rest
  | [] => none

/-- The character opens a string. -/
def isQuote (c : Char) : Bool := c == '"' || c == '\''

/-! ### Keys -/

/-- The character may stand in a key without quotes. -/
def isBare (c : Char) : Bool := c.isAlphanum || c == '_' || c == '-'

/-- One part of a key. -/
def keyPart? (cs : List Char) : Option (String × List Char) :=
  match cs with
  | [] => none
  | c :: rest =>
    if isQuote c then (oneLine? c (cs.length + 1) rest).map fun (s, rest) => (String.ofList s, rest)
    else
      let name := cs.takeWhile isBare
      if name = [] then none else some (String.ofList name, cs.dropWhile isBare)

/-- A key: parts between points. -/
def key? : Nat → List Char → Option (List String × List Char)
  | 0, _ => none
  | fuel + 1, cs => do
    let (part, rest) ← keyPart? (skipBlanks cs)
    match skipBlanks rest with
    | '.' :: rest =>
      let (parts, rest) ← key? fuel rest
      some (part :: parts, rest)
    | rest => some ([part], rest)

/-! ### Plain values -/

/-- The whole number that digits of a base write, after the letters that announce the base. -/
def inBase? (base : Nat) (cs : List Char) : Option SettingValue := do
  let isDigit (c : Char) : Bool :=
    match Hex.value? c with
    | some v => v < base
    | none => false
  let digits ← SettingValue.spaced? isDigit cs
  let n := digits.foldl (fun n c => n * base + (Hex.value? c).getD 0) 0
  if SettingValue.fitsSigned n then some (.integer n) else none

/-- The sign that has to follow. -/
def expect? (c : Char) (cs : List Char) : Option (List Char) :=
  match cs with
  | d :: rest => if c = d then some rest else none
  | [] => none

/-- As many digits as asked for, and what follows them. -/
def digits? (count : Nat) (cs : List Char) : Option (List Char × List Char) :=
  let digits := cs.take count
  if digits.length = count ∧ digits.all Char.isDigit then some (digits, cs.drop count) else none

/-- Two digits of a date or time between two bounds, and what follows them. -/
def twoDigits? (low high : Nat) (cs : List Char) : Option (List Char × List Char) := do
  let (digits, rest) ← digits? 2 cs
  let n := SettingValue.ofDigits digits
  if low ≤ n ∧ n ≤ high then some (digits, rest) else none

/-- A date and what follows it. -/
def date? (cs : List Char) : Option (List Char × List Char) := do
  let (year, rest) ← digits? 4 cs
  let (month, rest) ← expect? '-' rest >>= twoDigits? 1 12
  let last := Date.daysInMonth (SettingValue.ofDigits year) (SettingValue.ofDigits month)
  let (day, rest) ← expect? '-' rest >>= twoDigits? 1 last
  some (year ++ '-' :: month ++ '-' :: day, rest)

/-- What is written for a fraction of a second: nine digits of it count, zeros at its end are left
out, and a fraction of nothing keeps one. -/
def fractionText (digits : List Char) : List Char :=
  match ((digits.take 9).reverse.dropWhile (· == '0')).reverse with
  | [] => ['.', '0']
  | shown => '.' :: shown

/-- What is written for the fraction of a second that may stand in front, and what follows it. -/
def fraction? (cs : List Char) : Option (List Char × List Char) :=
  match cs with
  | '.' :: rest =>
    match rest.takeWhile Char.isDigit with
    | [] => none
    | digits => some (fractionText digits, rest.dropWhile Char.isDigit)
  | _ => some ([], cs)

/-- What is written for the seconds that may stand in front, and what follows them. Only seconds
have a fraction. -/
def seconds? (cs : List Char) : Option (List Char × List Char) :=
  match cs with
  | ':' :: rest => do
    let (second, rest) ← twoDigits? 0 60 rest
    let (fraction, rest) ← fraction? rest
    some (':' :: second ++ fraction, rest)
  | _ => some ([], cs)

/-- What is written for a time of day, with seconds or without, and what follows it. -/
def time? (cs : List Char) : Option (List Char × List Char) := do
  let (hour, rest) ← twoDigits? 0 23 cs
  let (minute, rest) ← expect? ':' rest >>= twoDigits? 0 59
  let (seconds, rest) ← seconds? rest
  some (hour ++ ':' :: minute ++ seconds, rest)

/-- What is written for an offset, which ends a text; an offset of nothing has a plus sign. -/
def offset? (cs : List Char) : Option (List Char) :=
  match cs with
  | [] => some []
  | c :: rest =>
    if c = 'Z' ∨ c = 'z' then if rest = [] then some ['Z'] else none
    else if c = '+' ∨ c = '-' then do
      let (hour, rest) ← twoDigits? 0 23 rest
      let (minute, rest) ← expect? ':' rest >>= twoDigits? 0 59
      let shown := hour ++ ':' :: minute
      if rest ≠ [] then none
      else if SettingValue.ofDigits (hour ++ minute) = 0 then some ('+' :: shown)
      else some (c :: shown)
    else none

/-- What is written for a date, a time, or both with an offset or without. -/
def moment? (cs : List Char) : Option (List Char) :=
  match date? cs with
  | some (date, []) => some date
  | some (date, sep :: rest) =>
    if sep = 'T' ∨ sep = 't' ∨ sep = ' ' then do
      let (time, rest) ← time? rest
      let offset ← offset? rest
      some (date ++ 'T' :: time ++ offset)
    else none
  | none =>
    match time? cs with
    | some (time, []) => some time
    | _ => none

/-- A value that is neither string nor list nor table. -/
def plain? (cs : List Char) : Option SettingValue :=
  if cs = "true".toList then some (.bool true)
  else if cs = "false".toList then some (.bool false)
  else
    let (negative, word) := SettingValue.signed cs
    if word = "inf".toList then some (.infinite negative)
    else if word = "nan".toList then some .notNumber
    else
      match cs with
      | '0' :: 'x' :: digits => inBase? 16 digits
      | '0' :: 'o' :: digits => inBase? 8 digits
      | '0' :: 'b' :: digits => inBase? 2 digits
      | _ =>
        match moment? cs, SettingValue.integer? cs with
        | some moment, _ => some (.text (String.ofList moment))
        | none, some n => if SettingValue.fitsSigned n then some (.integer n) else none
        | none, none => SettingValue.float? cs

/-- The character may stand in a plain value. -/
def isPlain (c : Char) : Bool :=
  c.isAlphanum || c == '_' || c == '-' || c == '+' || c == '.' || c == ':'

/-- A plain value and what follows it. A date may go on with a time after a blank. -/
def plainFrom? (cs : List Char) : Option (SettingValue × List Char) :=
  let token := cs.takeWhile isPlain
  let rest := cs.dropWhile isPlain
  match date? token, rest with
  | some (_, []), ' ' :: d :: more =>
    if d.isDigit then
      let long := token ++ ' ' :: (d :: more).takeWhile isPlain
      (plain? long).map (·, (d :: more).dropWhile isPlain)
    else (plain? token).map (·, rest)
  | _, _ => (plain? token).map (·, rest)

/-! ### Values -/

/-- How deep lists and tables between braces may stand in each other. -/
def nestingLimit : Nat := 80

/-- Two keys that cannot stand in one table, since the path of one leads through the other. -/
def clash (a b : List String) : Bool := a.isPrefixOf b || b.isPrefixOf a

mutual
/-- A value that may hold values as deep as `room` tells. -/
def value? (room : Nat) : Nat → List Char → Option (SettingValue × List Char)
  | 0, _ => none
  | fuel + 1, cs =>
    match cs, room with
    | '[' :: rest, room + 1 => (items? room fuel rest).map (.list, ·)
    | '\x7b' :: rest, room + 1 => (members? room [] fuel rest).map (.table, ·)
    | c :: _, _ =>
      if isQuote c then (string? cs).map fun (s, rest) => (.text (String.ofList s), rest)
      else plainFrom? cs
    | [], _ => none

/-- What follows the items of a list, which may stand on several lines. -/
def items? (room : Nat) : Nat → List Char → Option (List Char)
  | 0, _ => none
  | fuel + 1, cs =>
    match skipLines cs with
    | ']' :: rest => some rest
    | cs => do
      let (_, rest) ← value? room fuel cs
      match skipLines rest with
      | ']' :: rest => some rest
      | ',' :: rest => items? room fuel rest
      | _ => none

/-- What follows the members of a table between braces, which may stand on several lines; `seen` are
the keys before. -/
def members? (room : Nat) (seen : List (List String)) : Nat → List Char → Option (List Char)
  | 0, _ => none
  | fuel + 1, cs =>
    match skipLines cs with
    | '\x7d' :: rest => some rest
    | cs => do
      let (key, rest) ← key? (cs.length + 1) cs
      let rest ← expect? '=' (skipLines rest)
      let (_, rest) ← value? room fuel (skipLines rest)
      if seen.any (clash key) then none
      else
        match skipLines rest with
        | '\x7d' :: rest => some rest
        | ',' :: rest => members? room (key :: seen) fuel rest
        | _ => none
end

/-! ### Tables -/

/-- How a path came to be defined. -/
inductive Definition
  | value (v : SettingValue)
  /-- A table with a header of its own. -/
  | header
  /-- A table that only leads to another one with a header. -/
  | passage
  /-- A table that the parts of a key lead through. -/
  | dotted
  /-- A list of tables, with the number of those that are open before the last one. -/
  | tables (count : Nat)

/-- What is defined so far, by path, and the table that is open. -/
structure State where
  defined : List (List String × Definition)
  current : List String

/-- The path of one of the tables in a list. -/
def elementPath (path : List String) (n : Nat) : List String := path ++ [toString n ++ "\n"]

/-- How a path is defined. -/
def State.find? (s : State) (path : List String) : Option Definition := s.defined.lookup path

/-- One more definition, which takes the place of an older one. -/
def State.define (s : State) (path : List String) (d : Definition) : State :=
  { s with defined := (path, d) :: s.defined }

/-- The table that a header's parts lead to from a path, all but the last part. -/
def State.descend (s : State) (path : List String) : List String → Option (State × List String)
  | [] => some (s, path)
  | part :: rest =>
    let next := path ++ [part]
    match s.find? next with
    | none => (s.define next .passage).descend next rest
    | some (.value _) => none
    | some (.tables n) => s.descend (elementPath next n) rest
    | some _ => s.descend next rest

/-- The state after the header of a table. -/
def State.openTable (s : State) (key : List String) : Option State := do
  let (s, path) ← s.descend [] key.dropLast
  let path := path ++ [key.getLastD ""]
  match s.find? path with
  | none => some { s.define path .header with current := path }
  | some .passage => some { s.define path .header with current := path }
  | some _ => none

/-- The state after the header of one more table of a list. -/
def State.openElement (s : State) (key : List String) : Option State := do
  let (s, path) ← s.descend [] key.dropLast
  let path := path ++ [key.getLastD ""]
  match s.find? path with
  | none => some { s.define path (.tables 0) with current := elementPath path 0 }
  | some (.tables n) =>
    some { s.define path (.tables (n + 1)) with current := elementPath path (n + 1) }
  | some _ => none

/-- The state after a key with a value in a table. -/
def State.assign (s : State) (path : List String) (v : SettingValue) :
    List String → Option State
  | [] => none
  | [name] =>
    match s.find? (path ++ [name]) with
    | none => some (s.define (path ++ [name]) (.value v))
    | some _ => none
  | part :: rest =>
    let next := path ++ [part]
    match s.find? next with
    | none => (s.define next .dotted).assign next v rest
    | some .dotted => s.assign next v rest
    | some _ => none

/-! ### Files -/

/-- The state after the lines of a file. -/
def lines? : Nat → State → List Char → Option State
  | 0, _, _ => none
  | fuel + 1, s, cs =>
    match skipLines cs with
    | [] => some s
    | '[' :: '[' :: rest => do
      let (key, rest) ← key? (rest.length + 1) rest
      let rest ← expect? ']' (skipBlanks rest) >>= expect? ']' >>= endOfLine?
      let s ← s.openElement key
      lines? fuel s rest
    | '[' :: rest => do
      let (key, rest) ← key? (rest.length + 1) rest
      let rest ← expect? ']' (skipBlanks rest) >>= endOfLine?
      let s ← s.openTable key
      lines? fuel s rest
    | cs => do
      let (key, rest) ← key? (cs.length + 1) cs
      let rest ← expect? '=' (skipBlanks rest)
      let (v, rest) ← value? nestingLimit (cs.length + 1) (skipBlanks rest)
      let rest ← endOfLine? rest
      let s ← s.assign s.current v key
      lines? fuel s rest

/-- What stands at the top of a file. -/
def topLevel (s : State) : List (String × SettingValue) :=
  s.defined.filterMap fun (path, d) =>
    match path, d with
    | [name], .value v => some (name, v)
    | [name], .tables _ => some (name, .list)
    | [name], _ => some (name, .table)
    | _, _ => none

/-- **The settings of a file.** -/
def read? (cs : List Char) : Option (List (String × SettingValue)) :=
  (lines? (cs.length + 1) ⟨[], []⟩ cs).map topLevel

end WalletApi.Toml
