import WalletApi.Json.Error

/-!
# Reading values from documents

A reader turns a document into a value of its type or tells why it cannot. It meets faults in the
order of the text: the entries of a container one by one, each with all that is inside, then the end
of the container, and only then what the container lacks. Containers nest to a bounded depth where
they are read; what is passed over may nest as it likes.
-/

namespace WalletApi.Json

/-- **A reader.** Its first argument is how deep containers may still nest. -/
abbrev Reader (α : Type) := Nat → Doc → Except ReadError α

namespace Doc

/-- What a document is, to be told where something else was expected. -/
def found : Doc → Except ReadError Found
  | .null => .ok .null
  | .bool b => .ok (.bool b)
  | .number n => .ok (.number n)
  | .string s => .ok (.string s)
  | .array _ _ => .ok .sequence
  | .object _ _ => .ok .map
  | .defect _ read _ => .error (.fault read)

/-- The fault that is met where only a string can stand. -/
def noStringFault : Doc → Fault
  | .defect .quote read _ => read
  | .defect .nothing read _ => read
  | _ => .malformed

/-- The text of a key. -/
def name : Doc → Except ReadError String
  | .string s => .ok s
  | d => .error (.fault d.noStringFault)

/-- The members that have a name. -/
def named (members : List (Doc × Doc)) : List (String × Doc) :=
  members.filterMap fun m =>
    match m.1 with
    | .string s => some (s, m.2)
    | _ => none

end Doc

/-- The end of a container, once its entries are read. -/
def atEnd (close : Option Fault) : Except ReadError Unit :=
  match close with
  | some fault => .error (.fault fault)
  | none => .ok ()

namespace Reader

variable {α β : Type}

/-- The depth that is left inside a container. -/
def enter (depth : Nat) : Except ReadError Nat :=
  match depth with
  | 0 => .error (.fault .malformed)
  | depth + 1 => .ok depth

/-- The refusal of a document that is of another kind. -/
def refuse (expected : String) (d : Doc) : Except ReadError α :=
  match d.found with
  | .ok found => .error (.mismatch (.type found expected))
  | .error e => .error e

/-! ### Plain values -/

/-- A string. -/
def string : Reader String
  | _, .string s => .ok s
  | _, d => refuse "a string" d

/-- A truth value. -/
def bool : Reader Bool
  | _, .bool b => .ok b
  | _, d => refuse "a boolean" d

/-- A whole number between two bounds, both included; the text names the range. -/
def integer (low high : Int) (range : String) : Reader Int
  | _, .number (.integer n) =>
    if low ≤ n ∧ n ≤ high then .ok n
    else .error (.mismatch (.value (.number (.integer n)) range))
  | _, d => refuse range d

/-- A natural number of thirty-two bits. -/
def u32 : Reader Nat := fun depth d => (integer 0 0xffffffff "u32" depth d).map Int.toNat

/-- A natural number of sixty-four bits. -/
def u64 : Reader Nat := fun depth d => (integer 0 Number.unsignedMax "u64" depth d).map Int.toNat

/-- A whole number of sixty-four bits. -/
def i64 : Reader Int := integer (-0x8000000000000000) 0x7fffffffffffffff "i64"

/-- A value that may be `null`. -/
def optional (r : Reader α) : Reader (Option α)
  | _, .null => .ok none
  | _, .defect .nullLetter read _ => .error (.fault read)
  | depth, d => (r depth d).map some

/-- A string that another reader understands; the text says what it should be. -/
def parsed (parse : String → Except String α) (expected : String) : Reader α
  | _, .string s =>
    match parse s with
    | .ok a => .ok a
    | .error reason => .error (.mismatch (.refused reason))
  | _, d => refuse expected d

/-! ### Lists and maps -/

/-- The items of an array, in order. -/
def readItems (r : Reader α) (depth : Nat) : List Doc → Except ReadError (List α)
  | [] => .ok []
  | d :: rest => do
    let a ← r depth d
    let l ← readItems r depth rest
    pure (a :: l)

/-- The members of an object, in order. -/
def readMembers (r : Reader α) (depth : Nat) :
    List (Doc × Doc) → Except ReadError (List (String × α))
  | [] => .ok []
  | (k, d) :: rest => do
    let name ← k.name
    let a ← r depth d
    let l ← readMembers r depth rest
    pure ((name, a) :: l)

/-- A list. -/
def list (r : Reader α) : Reader (List α)
  | depth, .array items close => do
    let depth ← enter depth
    let l ← readItems r depth items
    atEnd close
    pure l
  | _, d => refuse "a sequence" d

/-- A map from text, where the last value of a key wins. -/
def map (r : Reader α) : Reader (SortedMap α)
  | depth, .object members close => do
    let depth ← enter depth
    let l ← readMembers r depth members
    atEnd close
    pure (SortedMap.ofList l)
  | _, d => refuse "a map" d

mutual
/-- Any value. Its objects come out sorted by key. -/
def value : Nat → Doc → Except ReadError Value
  | _, .null => .ok .null
  | _, .bool b => .ok (.bool b)
  | _, .number n => .ok (.number n)
  | _, .string s => .ok (.string s)
  | depth, .array items close => do
    let depth ← enter depth
    let l ← valueItems depth items
    atEnd close
    pure (.array l)
  | depth, .object members close => do
    let depth ← enter depth
    let l ← valueMembers depth members
    atEnd close
    pure (.object (SortedMap.ofList l).entries)
  | _, .defect _ read _ => .error (.fault read)

/-- The items of an array, whatever they are. -/
def valueItems : Nat → List Doc → Except ReadError (List Value)
  | _, [] => .ok []
  | depth, d :: rest => do
    let v ← value depth d
    let l ← valueItems depth rest
    pure (v :: l)

/-- The members of an object, whatever they are. -/
def valueMembers : Nat → List (Doc × Doc) → Except ReadError (List (String × Value))
  | _, [] => .ok []
  | depth, (k, d) :: rest => do
    let name ← k.name
    let v ← value depth d
    let l ← valueMembers depth rest
    pure ((name, v) :: l)
end

/-- Free-form data. -/
def metadata : Reader Metadata := map value

/-! ### Choices -/

/-- One of several named choices: its name, or an object with the name as its only key and `null` as
the value. A name that is not known is the last choice, if there is one, and an error else. -/
def choice (known : List (String × α)) (other : Option α) : Reader α
  | _, .string s => select s
  | depth, .object members close => do
    let _ ← enter depth
    match members with
    | [] => .error (.fault (close.getD .malformed))
    | (k, d) :: rest =>
      let name ←
        match k with
        | .string s => pure s
        | k => refuse "variant identifier" k
      let a ← select name
      match d with
      | .null => pure ()
      | d => refuse "unit" d
      if rest.isEmpty then atEnd close else .error (.fault .malformed)
      pure a
  | _, d => .error (.fault d.noStringFault)
where
  /-- The choice of a name. -/
  select (name : String) : Except ReadError α :=
    match known.lookup name, other with
    | some a, _ => .ok a
    | none, some a => .ok a
    | none, none => .error (.mismatch (.unknownVariant name (known.map Prod.fst)))

end Reader

/-! ### Records -/

/-- A record written as an array, of which some fields are taken. -/
structure Sequence where
  items : List Doc
  close : Option Fault
  /-- How many fields are taken. -/
  taken : Nat
  /-- What the whole is expected to be. -/
  expected : String

/-- **The fields of a record**, and how they make it. -/
structure Fields (α : Type) where
  /-- For each field its names, of which the first is told in messages, and what its value has to
  satisfy. -/
  table : List (List String × Reader Unit)
  /-- The record made of named members. -/
  pick : Nat → List (String × Doc) → Except ReadError α
  /-- The record made of the first items of an array. -/
  take : Nat → Sequence → Except ReadError (α × Sequence)

namespace Fields

variable {α β : Type}

/-- A record without fields. -/
def pure (a : α) : Fields α := ⟨[], fun _ _ => .ok a, fun _ s => .ok (a, s)⟩

/-- The fields of two parts, the first part's before the second's. -/
def seq (f : Fields (α → β)) (x : Fields α) : Fields β where
  table := f.table ++ x.table
  pick depth members := do
    let g ← f.pick depth members
    let a ← x.pick depth members
    return g a
  take depth s := do
    let (g, s) ← f.take depth s
    let (a, s) ← x.take depth s
    return (g a, s)

/-- One field, with the value that it has where it is missing. -/
def field (names : List String) (missing : Option α) (r : Reader α) : Fields α where
  table := [(names, fun depth d => (r depth d).map fun _ => ())]
  pick depth members :=
    match members.find? fun m => names.contains m.1, missing with
    | some (_, d), _ => r depth d
    | none, some a => .ok a
    | none, none => .error (.mismatch (.missingField (names.headD "")))
  take depth s :=
    match s.items, s.close, missing with
    | d :: rest, _, _ => do
      let a ← r depth d
      return (a, { s with items := rest, taken := s.taken + 1 })
    | [], some fault, _ => .error (.fault fault)
    | [], none, some a => .ok (a, { s with taken := s.taken + 1 })
    | [], none, none => .error (.mismatch (.length s.taken s.expected))

/-- A field that has to be there. -/
def required (name : String) (r : Reader α) : Fields α := field [name] none r

/-- A field with a value that it has where it is missing. -/
def withDefault (name : String) (r : Reader α) (a : α) : Fields α := field [name] (some a) r

/-- One more field after those of a record that waits for it. -/
def and (f : Fields (α → β)) (x : Fields α) : Fields β := seq f x

/-- What the values of unknown members have to satisfy. -/
abbrev Unknown := Nat → Doc → Except ReadError Unit

/-- Unknown members that are passed over. -/
def passedOver : Unknown := fun _ d => atEnd d.skipFault

/-- Unknown members that are kept for another reader. -/
def kept : Unknown := fun depth d => (Reader.value depth d).map fun _ => ()

/-- The members of an object checked in order: each known one stands once and satisfies its field,
and each unknown one what is asked of those. `seen` holds the fields that were met. -/
def check (table : List (List String × Reader Unit)) (unknown : Unknown) (depth : Nat) :
    List String → List (Doc × Doc) → Except ReadError Unit
  | _, [] => .ok ()
  | seen, (k, d) :: rest => do
    let name ← k.name
    match table.find? fun entry => entry.1.contains name with
    | none => do
      unknown depth d
      check table unknown depth seen rest
    | some (names, r) =>
      let primary := names.headD ""
      if seen.contains primary then .error (.mismatch (.duplicateField primary))
      else do
        r depth d
        check table unknown depth (primary :: seen) rest

/-- What a record is expected to be when it is written as an array. -/
def expectedSequence (name : String) (count : Nat) : String :=
  "struct " ++ name ++ " with " ++ toString count ++ (if count = 1 then " element" else " elements")

/-- **A record**: an object with its fields, or an array of them in order. -/
def record (name : String) (fields : Fields α) : Reader α
  | depth, .object members close => do
    let depth ← Reader.enter depth
    check fields.table passedOver depth [] members
    atEnd close
    fields.pick depth (Doc.named members)
  | depth, .array items close => do
    let depth ← Reader.enter depth
    let (a, s) ← fields.take depth ⟨items, close, 0, expectedSequence name fields.table.length⟩
    if s.items.isEmpty then atEnd close else .error (.fault .malformed)
    return a
  | _, d => Reader.refuse ("struct " ++ name) d

/-- **A record that holds the fields of another one beside its own**: an object. The other record's
members are read last, from what the record itself does not know. -/
def recordWith (name : String) (own : Fields (β → α)) (inner : Fields β) : Reader α
  | depth, .object members close => do
    let depth ← Reader.enter depth
    check own.table kept depth [] members
    atEnd close
    let make ← own.pick depth (Doc.named members)
    let others := members.filter fun m =>
      match m.1 with
      | .string s => !(own.table.any fun entry => entry.1.contains s)
      | _ => false
    check inner.table passedOver depth [] others
    let b ← inner.pick depth (Doc.named others)
    return make b
  | _, d => Reader.refuse ("struct " ++ name) d

end Fields

/-- How deep the containers of a text may nest. -/
def maxDepth : Nat := 127

/-- **The value that a text writes**, with nothing but blanks after it. -/
def read {α : Type} (r : Reader α) (bs : Bytes) : Except ReadError α := do
  let (d, trailing) := Doc.ofBytes bs
  let a ← r maxDepth d
  atEnd trailing
  return a

end WalletApi.Json
