import WalletApi.Json.Number
import WalletApi.Text.Utf8

/-!
# JSON documents with their faults in place

A byte string is read into a tree that also tells where it fails to be JSON, since what a reader
reports depends on how far it looks: a member that nobody asks for is only passed over, and a record
refuses a value of the wrong kind before it looks inside. A fault of a single value has two sides.
`read` is met by whoever needs the value. `skip` is met by whoever passes over it; where there is
none, the rest of the text can be followed all the same. Whoever only takes strings does not look
beyond the first character of anything else, so that a defect also tells how it begins.
-/

namespace WalletApi.Json

/-- How a text fails to be JSON: something stands in it that cannot, or it ends too early. -/
inductive Fault
  | malformed
  | truncated
deriving DecidableEq

/-- How a value begins. -/
inductive Opening
  /-- There is nothing that a value could begin with. -/
  | nothing
  | quote
  /-- The first letter of `null`. -/
  | nullLetter
  /-- A sign, a digit or the first letter of a truth value. -/
  | other
deriving DecidableEq

/-- **A document.** A container carries the fault that its closing bracket has, if any; after a
comma that nothing follows there is one more entry, which is a defect. The key of a member is a
string or, in a malformed document, something else. -/
inductive Doc
  | null
  | bool (b : Bool)
  | number (n : Number)
  | string (s : String)
  | array (items : List Doc) (close : Option Fault)
  | object (members : List (Doc × Doc)) (close : Option Fault)
  | defect (opening : Opening) (read : Fault) (skip : Option Fault)

/-- What is left of a text after a value; none when the text cannot be followed any further. -/
abbrev Rest := Option Bytes

namespace Doc

/-- The defect of a value that is not there, which ends the document. -/
def absent (fault : Fault) : Doc := .defect .nothing fault (some fault)

/-! ### Characters -/

/-- The number of an ASCII character. -/
def ascii (c : Char) : UInt8 := UInt8.ofNat c.toNat

/-- The blanks between the parts of a document. -/
def isBlank (b : UInt8) : Bool := b == 0x20 || b == 0x0a || b == 0x0d || b == 0x09

/-- A text without the blanks in front. -/
def skipBlanks (bs : Bytes) : Bytes := bs.dropWhile isBlank

/-- The byte is a decimal digit. -/
def isDigit (b : UInt8) : Bool := 0x30 ≤ b && b ≤ 0x39

/-- The number of a hexadecimal digit. -/
def hexValue? (b : UInt8) : Option Nat :=
  if isDigit b then some (b.toNat - 0x30)
  else if 0x61 ≤ b && b ≤ 0x66 then some (b.toNat - 0x57)
  else if 0x41 ≤ b && b ≤ 0x46 then some (b.toNat - 0x37)
  else none

/-! ### Literals -/

/-- The word continues a text, which is left without it. -/
def expectWord : Bytes → Bytes → Except Fault Bytes
  | [], rest => .ok rest
  | _ :: _, [] => .error .truncated
  | w :: word, b :: rest => if w = b then expectWord word rest else .error .malformed

/-- A literal after its first letter. -/
def literal (opening : Opening) (word : String) (value : Doc) (rest : Bytes) : Doc × Rest :=
  match expectWord (word.toList.map ascii) rest with
  | .ok rest => (value, some rest)
  | .error fault => (.defect opening fault (some fault), none)

/-! ### Numbers -/

/-- The digits in front of a text and what follows them. -/
def digits (bs : Bytes) : List Nat × Bytes :=
  ((bs.takeWhile isDigit).map fun b => b.toNat - 0x30, bs.dropWhile isDigit)

/-- The fault of a number where a digit is missing. Whoever needs the number is told when the text
ends there; whoever passes over it takes the end for any other character. -/
def missingDigit (rest : Bytes) : Doc :=
  .defect .other (if rest = [] then .truncated else .malformed) (some .malformed)

/-- A number that goes wrong whoever looks at it. -/
def wrongNumber : Doc := .defect .other .malformed (some .malformed)

/-- The digits before the point: a single zero, or digits that start with another one. -/
def wholeDigits (bs : Bytes) : Except Doc (List Nat × Bytes) :=
  match digits bs with
  | ([], rest) => .error (missingDigit rest)
  | (0 :: _ :: _, _) => .error wrongNumber
  | found => .ok found

/-- The point and the digits after it, if a text goes on with them. -/
def fractionDigits (bs : Bytes) : Except Doc (Option (List Nat) × Bytes) :=
  match bs with
  | 0x2e :: rest =>
    match digits rest with
    | ([], rest) => .error (missingDigit rest)
    | (ds, rest) => .ok (some ds, rest)
  | _ => .ok (none, bs)

/-- The number that decimal digits write. -/
def ofDigits (ds : List Nat) : Nat := ds.foldl (fun n d => n * 10 + d) 0

/-- The exponent, if a text goes on with one. -/
def exponentPart (bs : Bytes) : Except Doc (Option Int × Bytes) :=
  match bs with
  | b :: rest =>
    if b = ascii 'e' || b = ascii 'E' then
      let (negative, rest) :=
        match rest with
        | 0x2b :: rest => (false, rest)
        | 0x2d :: rest => (true, rest)
        | _ => (false, rest)
      match digits rest with
      | ([], rest) => .error (missingDigit rest)
      | (ds, rest) => .ok (some (if negative then -(ofDigits ds : Int) else ofDigits ds), rest)
    else .ok (none, bs)
  | [] => .ok (none, bs)

/-- The parts of a number after its sign. -/
def numeral (negative : Bool) (bs : Bytes) : Except Doc (Numeral × Bytes) := do
  let (whole, bs) ← wholeDigits bs
  let (fraction, bs) ← fractionDigits bs
  let (exponent, bs) ← exponentPart bs
  pure (⟨negative, whole, fraction, exponent⟩, bs)

/-- A number after its sign. One out of range is a fault for whoever needs it. -/
def numberFrom (negative : Bool) (bs : Bytes) : Doc × Rest :=
  match numeral negative bs with
  | .error d => (d, none)
  | .ok (n, rest) =>
    match Number.ofNumeral n with
    | some n => (.number n, some rest)
    | none => (.defect .other .malformed none, some rest)

/-! ### Strings -/

/-- The number of four hexadecimal digits. -/
def unit? (a b c d : UInt8) : Option Nat := do
  let a ← hexValue? a
  let b ← hexValue? b
  let c ← hexValue? c
  let d ← hexValue? d
  some (((a * 16 + b) * 16 + c) * 16 + d)

/-- The unit is the second half of a pair. -/
def isLow (unit : Nat) : Bool := 0xdc00 ≤ unit && unit ≤ 0xdfff

/-- The unit is the first half of a pair. -/
def isHigh (unit : Nat) : Bool := 0xd800 ≤ unit && unit ≤ 0xdbff

/-- The character that the two halves of a pair stand for. -/
def paired (high low : Nat) : Char :=
  Char.ofNat (0x10000 + (high - 0xd800) * 0x400 + (low - 0xdc00))

/-- What the letter of a short escape stands for. -/
def shortEscape? (b : UInt8) : Option UInt8 :=
  if b = ascii '"' || b = ascii '\\' || b = ascii '/' then some b
  else if b = ascii 'b' then some 0x08
  else if b = ascii 'f' then some 0x0c
  else if b = ascii 'n' then some 0x0a
  else if b = ascii 'r' then some 0x0d
  else if b = ascii 't' then some 0x09
  else none

/-- The bytes of a character, last byte first, in front of others. -/
def pushChar (c : Char) (done : Bytes) : Bytes := (String.utf8EncodeChar c).reverse ++ done

/-- The bytes of a string up to its closing quote, with escapes resolved; `done` holds what has been
read, last byte first. A numbered escape is one unit outside the surrogates, or a high surrogate
followed by the escape of a low one. -/
def stringBytes (done : Bytes) : Bytes → Except Fault (Bytes × Bytes)
  | [] => .error .truncated
  | b :: rest =>
    if b = ascii '"' then .ok (done.reverse, rest)
    else if b = ascii '\\' then
      match rest with
      | [] => .error .truncated
      | e :: rest =>
        if e = ascii 'u' then
          match rest with
          | a :: b :: c :: d :: rest =>
            match unit? a b c d with
            | none => .error .malformed
            | some unit =>
              if isLow unit then .error .malformed
              else if isHigh unit then
                match rest with
                | [] => .error .truncated
                | s :: rest =>
                  if s = ascii '\\' then
                    match rest with
                    | [] => .error .truncated
                    | e :: rest =>
                      if e = ascii 'u' then
                        match rest with
                        | a :: b :: c :: d :: rest =>
                          match unit? a b c d with
                          | none => .error .malformed
                          | some low =>
                            if isLow low then stringBytes (pushChar (paired unit low) done) rest
                            else .error .malformed
                        | _ => .error .truncated
                      else .error .malformed
                  else .error .malformed
              else stringBytes (pushChar (Char.ofNat unit) done) rest
          | _ => .error .truncated
        else
          match shortEscape? e with
          | some b => stringBytes (b :: done) rest
          | none => .error .malformed
    else if b < 0x20 then .error .malformed
    else stringBytes (b :: done) rest

/-- A string after its opening quote. The bytes have to be text. -/
def readString (bs : Bytes) : Except Fault (String × Bytes) := do
  let (bytes, rest) ← stringBytes [] bs
  match Utf8.decode? bytes with
  | some cs => .ok (String.ofList cs, rest)
  | none => .error .malformed

/-- A string after its opening quote, passed over: the escapes have to be spelt well, whatever they
stand for. -/
def skipString : Bytes → Except Fault Bytes
  | [] => .error .truncated
  | b :: rest =>
    if b = ascii '"' then .ok rest
    else if b = ascii '\\' then
      match rest with
      | [] => .error .truncated
      | e :: rest =>
        if e = ascii 'u' then
          match rest with
          | a :: b :: c :: d :: rest =>
            if ((hexValue? a).isSome && (hexValue? b).isSome && (hexValue? c).isSome
              && (hexValue? d).isSome) then skipString rest
            else .error .malformed
          | _ => .error .truncated
        else if (shortEscape? e).isSome then skipString rest
        else .error .malformed
    else if b < 0x20 then .error .malformed
    else skipString rest

/-- A string after its opening quote, as a document. -/
def stringFrom (bs : Bytes) : Doc × Rest :=
  match readString bs with
  | .ok (s, rest) => (.string s, some rest)
  | .error read =>
    match skipString bs with
    | .ok rest => (.defect .quote read none, some rest)
    | .error skip => (.defect .quote read (some skip), none)

/-! ### Containers -/

/-- A value that is no container, from its first byte on. -/
def leaf (b : UInt8) (rest : Bytes) : Doc × Rest :=
  if b = ascii '"' then stringFrom rest
  else if b = ascii 'n' then literal .nullLetter "ull" .null rest
  else if b = ascii 't' then literal .other "rue" (.bool true) rest
  else if b = ascii 'f' then literal .other "alse" (.bool false) rest
  else if b = ascii '-' then numberFrom true rest
  else if isDigit b then numberFrom false (b :: rest)
  else (absent .malformed, none)

/-- What stands where a key belongs. Anything but a string ends the document; its kind is kept. -/
def keyFrom (bs : Bytes) : Doc × Rest :=
  match skipBlanks bs with
  | [] => (absent .truncated, none)
  | b :: rest =>
    if b = ascii '"' then stringFrom rest
    else if b = ascii '[' then (.array [] (some .malformed), none)
    else if b = ascii '\x7b' then (.object [] (some .malformed), none)
    else ((leaf b rest).1, none)

/-- What follows the colon after a key. -/
def afterColon (bs : Bytes) : Except Fault Bytes :=
  match skipBlanks bs with
  | [] => .error .truncated
  | b :: rest => if b = ascii ':' then .ok rest else .error .malformed

/-- What follows an entry: the end of the container, the next entry, or a fault. -/
inductive Separator
  | closed (rest : Bytes)
  | next (rest : Bytes)
  /-- Nothing follows the comma. -/
  | dangling (fault : Fault)
  | wrong (fault : Fault)

/-- What follows an entry of a container with the given closing bracket. -/
def separator (closing : Char) (bs : Bytes) : Separator :=
  match skipBlanks bs with
  | [] => .wrong .truncated
  | b :: rest =>
    if b = ascii closing then .closed rest
    else if b = ascii ',' then
      match skipBlanks rest with
      | [] => .dangling .truncated
      | c :: rest => if c = ascii closing then .dangling .malformed else .next (c :: rest)
    else .wrong .malformed

mutual
/-- A value, after blanks. -/
def value : Nat → Bytes → Doc × Rest
  | 0, _ => (absent .truncated, none)
  | fuel + 1, bs =>
    match skipBlanks bs with
    | [] => (absent .truncated, none)
    | b :: rest =>
      if b = ascii '[' then
        match skipBlanks rest with
        | [] => (.array [] (some .truncated), none)
        | c :: rest =>
          if c = ascii ']' then (.array [] none, some rest)
          else
            let (ds, close, rest) := items fuel (c :: rest)
            (.array ds close, rest)
      else if b = ascii '\x7b' then
        match skipBlanks rest with
        | [] => (.object [] (some .truncated), none)
        | c :: rest =>
          if c = ascii '\x7d' then (.object [] none, some rest)
          else
            let (ms, close, rest) := members fuel (c :: rest)
            (.object ms close, rest)
      else leaf b rest

/-- The items of an array from one on, with the fault of its end. -/
def items : Nat → Bytes → List Doc × Option Fault × Rest
  | 0, _ => ([], some .truncated, none)
  | fuel + 1, bs =>
    match value fuel bs with
    | (d, none) => ([d], some .malformed, none)
    | (d, some rest) =>
      match separator ']' rest with
      | .closed rest => ([d], none, some rest)
      | .wrong fault => ([d], some fault, none)
      | .dangling fault => ([d, absent fault], some fault, none)
      | .next rest =>
        let (ds, close, rest) := items fuel rest
        (d :: ds, close, rest)

/-- The members of an object from one on, with the fault of its end. -/
def members : Nat → Bytes → List (Doc × Doc) × Option Fault × Rest
  | 0, _ => ([], some .truncated, none)
  | fuel + 1, bs =>
    match keyFrom bs with
    | (k, none) => ([(k, absent .malformed)], some .malformed, none)
    | (k, some rest) =>
      match afterColon rest with
      | .error fault => ([(k, absent fault)], some fault, none)
      | .ok rest =>
        match value fuel rest with
        | (d, none) => ([(k, d)], some .malformed, none)
        | (d, some rest) =>
          match separator '\x7d' rest with
          | .closed rest => ([(k, d)], none, some rest)
          | .wrong fault => ([(k, d)], some fault, none)
          | .dangling fault => ([(k, d), (absent fault, absent fault)], some fault, none)
          | .next rest =>
            let (ms, close, rest) := members fuel rest
            ((k, d) :: ms, close, rest)
end

/-- **The document that a text writes**, with the fault of anything but blanks after it. -/
def ofBytes (bs : Bytes) : Doc × Option Fault :=
  match value (2 * bs.length + 2) bs with
  | (d, none) => (d, none)
  | (d, some rest) => (d, if skipBlanks rest = [] then none else some .malformed)

/-! ### Passing over a value -/

mutual
/-- The fault that is met by passing over a value. -/
def skipFault : Doc → Option Fault
  | .defect _ _ skip => skip
  | .array items close => skipItems items close
  | .object members close => skipMembers members close
  | _ => none

/-- The fault that is met by passing over the items of an array, and at last its end. -/
def skipItems : List Doc → Option Fault → Option Fault
  | [], close => close
  | d :: rest, close =>
    match skipFault d with
    | some fault => some fault
    | none => skipItems rest close

/-- The fault that is met by passing over the members of an object, and at last its end. -/
def skipMembers : List (Doc × Doc) → Option Fault → Option Fault
  | [], close => close
  | (k, d) :: rest, close =>
    let keyFault :=
      match k with
      | .string _ => none
      | .defect .quote _ skip => skip
      | .defect .nothing _ skip => skip
      | _ => some .malformed
    match keyFault with
    | some fault => some fault
    | none =>
      match skipFault d with
      | some fault => some fault
      | none => skipMembers rest close
end

end Doc

end WalletApi.Json
