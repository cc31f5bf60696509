import WalletApi.Calendar.Date
import WalletApi.Text.Blank
import WalletApi.Text.Utf8

/-!
# Points in time and their text

A point in time is a date and a time of day in universal time, to the nanosecond. It is written with
the date, a `T`, the time and a `Z`. Reading is more tolerant: numbers may be short, blanks may
stand between the parts, and the time may be that of another offset from universal time, to which it
is brought. The second 60 of a minute stands for an inserted second and is kept.
-/

namespace WalletApi

/-- **A point in time**, in universal time. -/
structure Timestamp where
  date : Date
  hour : Nat
  minute : Nat
  second : Nat
  nano : Nat
deriving DecidableEq

namespace Timestamp

/-- The point in time with a number of seconds since the start of 1970. From a thousand million on
the nanoseconds reach into an inserted second. -/
def ofUnix (seconds : Int) (nanos : Nat) : Timestamp :=
  let day := seconds / 86400
  let s := (seconds % 86400).toNat
  let inserted := nanos / 1000000000
  ⟨Date.ofDayNumber day, s / 3600, s / 60 % 60, s % 60 + inserted, nanos % 1000000000⟩

/-! ### Writing -/

/-- A number with at least the given count of digits. -/
def padded (width n : Nat) : List Char :=
  let digits := (toString n).toList
  List.replicate (width - digits.length) '0' ++ digits

/-- A year: four digits, and a sign where they do not suffice. -/
def yearText (year : Int) : List Char :=
  if 0 ≤ year ∧ year ≤ 9999 then padded 4 year.toNat
  else (if year < 0 then '-' else '+') :: padded 4 year.natAbs

/-- The fraction of a second: nothing, or as many groups of three digits as it needs. -/
def fractionText (nano : Nat) : List Char :=
  if nano = 0 then []
  else if nano % 1000000 = 0 then '.' :: padded 3 (nano / 1000000)
  else if nano % 1000 = 0 then '.' :: padded 6 (nano / 1000)
  else '.' :: padded 9 nano

/-- **The text of a point in time.** -/
def text (t : Timestamp) : String :=
  String.ofList
    (yearText t.date.year ++ '-' :: padded 2 t.date.month ++ '-' :: padded 2 t.date.day
      ++ 'T' :: padded 2 t.hour ++ ':' :: padded 2 t.minute ++ ':' :: padded 2 t.second
      ++ fractionText t.nano ++ ['Z'])

/-! ### Reading -/

/-- Why a text is no point in time. -/
inductive ReadFault
  | invalid
  | outOfRange
  | tooShort
  | tooLong
  /-- The offset leads out of the calendar. -/
  | impossible
deriving DecidableEq

/-- The wording of a fault. -/
def ReadFault.message : ReadFault → String
  | .invalid => "input contains invalid characters"
  | .outOfRange => "input is out of range"
  | .tooShort => "premature end of input"
  | .tooLong => "trailing input"
  | .impossible => "no possible date and time matching input"

/-- The outcome of reading a part of a text; what follows the part comes with its value. -/
abbrev Reading := Except ReadFault

/-- The number that decimal digits write. -/
def ofDigits (ds : List Char) : Nat := ds.foldl (fun n c => n * 10 + (c.toNat - 48)) 0

/-- A number of at least one and at most `width` digits, below the bound of sixty-four bits. -/
def digits (width : Nat) (cs : List Char) : Reading (Nat × List Char) :=
  let found := (cs.take width).takeWhile Char.isDigit
  if found = [] then .error (if cs = [] then .tooShort else .invalid)
  else if ofDigits found < Nat.pow 2 63 then .ok (ofDigits found, cs.drop found.length)
  else .error .outOfRange

/-- A number of one or two digits between two bounds, after blanks. -/
def bounded (low high : Nat) (cs : List Char) : Reading (Nat × List Char) := do
  let (n, cs) ← digits 2 (Text.trimStart cs)
  if low ≤ n ∧ n ≤ high then .ok (n, cs) else .error .outOfRange

/-- A year, after blanks: up to four digits, or any number of them after a sign. -/
def year (cs : List Char) : Reading (Int × List Char) := do
  let cs := Text.trimStart cs
  let (n, cs) ←
    match cs with
    | '-' :: rest => (digits rest.length rest).map fun (n, cs) => (-(n : Int), cs)
    | '+' :: rest => (digits rest.length rest).map fun (n, cs) => ((n : Int), cs)
    | _ => (digits 4 cs).map fun (n, cs) => ((n : Int), cs)
  if -0x80000000 ≤ n ∧ n < 0x80000000 then .ok (n, cs) else .error .outOfRange

/-- The sign between two numbers, after blanks. -/
def sign (c : Char) (cs : List Char) : Except ReadFault (List Char) :=
  match Text.trimStart cs with
  | [] => .error .tooShort
  | d :: rest => if c = d then .ok rest else .error .invalid

/-- The sign between the date and the time. -/
def dateEnd (cs : List Char) : Except ReadFault (List Char) :=
  match cs with
  | [] => .error .tooShort
  | c :: rest => if c = 'T' ∨ c = 't' ∨ c = ' ' then .ok rest else .error .invalid

/-- The fraction of a second in nanoseconds, if there is one; digits after the ninth do not count.
-/
def fraction (cs : List Char) : Reading (Nat × List Char) :=
  match cs with
  | '.' :: rest =>
    match digits 9 rest with
    | .error fault => .error fault
    | .ok (n, after) =>
      let scale := Nat.pow 10 (9 - (rest.length - after.length))
      .ok (n * scale, after.dropWhile Char.isDigit)
  | _ => .ok (0, cs)

/-- A number of two digits, below the bound if there is one. -/
def twoDigits (bound : Nat) (cs : List Char) : Reading (Nat × List Char) :=
  if (Utf8.encode cs).length < 2 then .error .tooShort
  else
    match cs with
    | a :: b :: rest =>
      if a.isDigit && b.isDigit then
        if ofDigits [a, b] < bound then .ok (ofDigits [a, b], rest) else .error .outOfRange
      else .error .invalid
    | _ => .error .invalid

/-- An offset from universal time in minutes: a letter or word for none, or a sign, hours and
minutes with or without a colon. -/
def offset (cs : List Char) : Reading (Int × List Char) :=
  if (cs.take 3).map Char.toUpper = ['U', 'T', 'C'] then .ok (0, cs.drop 3)
  else
    let signed (factor : Int) (rest : List Char) : Reading (Int × List Char) := do
      let (hours, rest) ← twoDigits 100 rest
      let (minutes, rest) ← twoDigits 60 (rest.dropWhile fun c => c == ':' || Text.isBlank c)
      .ok (factor * (hours * 60 + minutes), rest)
    match cs with
    | [] => .error .tooShort
    | c :: rest =>
      if c = 'Z' ∨ c = 'z' then .ok (0, rest)
      else if c = '+' then signed 1 rest
      else if c = '-' ∨ c = '\u2212' then signed (-1) rest
      else .error .invalid

/-- A point in local time brought to universal time, which may be in the day before or after. -/
def atOffset (t : Timestamp) (minutes : Int) : Except ReadFault Timestamp :=
  let wall : Int := t.hour * 60 + t.minute - minutes
  let date := if wall < 0 then t.date.previous else if 1440 ≤ wall then t.date.next else t.date
  let minuteOfDay := (wall % 1440).toNat
  if date.isValid then
    .ok { t with date := date, hour := minuteOfDay / 60, minute := minuteOfDay % 60 }
  else .error .impossible

/-- **The point in time that a text writes.** -/
def ofText (s : String) : Except ReadFault Timestamp := do
  let (year, cs) ← year s.toList
  let cs ← sign '-' cs
  let (month, cs) ← bounded 1 12 cs
  let cs ← sign '-' cs
  let (day, cs) ← bounded 1 31 cs
  let cs ← dateEnd cs
  let (hour, cs) ← bounded 0 23 cs
  let cs ← sign ':' cs
  let (minute, cs) ← bounded 0 59 cs
  let cs ← sign ':' cs
  let (second, cs) ← bounded 0 60 cs
  let (nano, cs) ← fraction cs
  let (minutes, cs) ← offset (Text.trimStart cs)
  if Text.trimStart cs ≠ [] then .error .tooLong
  else
    let date : Date := ⟨year, month, day⟩
    if date.isValid ∧ minutes.natAbs < 1440 then
      atOffset ⟨date, hour, minute, second, nano⟩ minutes
    else .error .outOfRange

end Timestamp

end WalletApi
