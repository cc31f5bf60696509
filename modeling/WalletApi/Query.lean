import WalletApi.Url.Form
import WalletApi.Wallet.Showing

/-!
# Queries for transactions

A listing of transactions is asked for with a page, an order, filters and free-form metadata. Each
of them becomes parameters of a name and a value. Metadata nests: every number, truth value and text
in it becomes one parameter, whose name spells the way to it with keys and array steps in brackets,
and what nests too deeply is refused. Parameters are sorted by name, and the values of one name stay
in the order in which they were made.
-/

namespace WalletApi

open Json (Value Metadata)

/-- A span of time, open where an end is missing. -/
structure TimeRange where
  start : Option Timestamp
  stop : Option Timestamp

/-- What the listed transactions have in common. -/
structure TransactionFilter where
  includeDeleted : Option Bool
  createdRange : Option TimeRange
  updatedRange : Option TimeRange
  id : Option String
  hex : Option String
  blockHash : Option String
  blockHeight : Option Nat
  draftId : Option String
  status : Option String

/-- A filter that lets everything through. -/
def TransactionFilter.default : TransactionFilter :=
  ⟨none, none, none, none, none, none, none, none, none⟩

/-- **A query for transactions.** -/
structure TransactionsQuery where
  page : Option Nat
  pageSize : Option Nat
  orderBy : Option String
  sort : Option SortDirection
  filter : TransactionFilter
  metadata : Metadata
  /-- How many levels of metadata are allowed. -/
  maxDepth : Nat

/-- A query for all transactions. -/
def TransactionsQuery.default : TransactionsQuery :=
  ⟨none, none, none, none, .default, .empty, 100⟩

/-- Why a query has no parameters. -/
inductive QueryFault
  /-- A value of the metadata, under this name, is on a deeper level than allowed. -/
  | tooDeep (maxDepth : Nat) (name : String)
deriving DecidableEq

/-- The wording of a fault. -/
def QueryFault.message : QueryFault → String
  | .tooDeep maxDepth name =>
    "metadata nesting exceeds max depth " ++ toString maxDepth ++ " at " ++ name

/-- A name with a value. -/
abbrev Parameter := String × String

/-- A parameter that is left out when its value is missing. -/
def Parameter.ofOption {α : Type} (name : String) (f : α → String) (a : Option α) :
    List Parameter :=
  (a.map fun a => (name, f a)).toList

/-- A parameter with a text, left out when that is missing. -/
def Parameter.ofText (name : String) (s : Option String) : List Parameter :=
  Parameter.ofOption name (fun s => s) s

/-! ### Metadata -/

/-- The name of what a key leads to. -/
def stepInto (name key : String) : String := name ++ "[" ++ key ++ "]"

/-- The name of the items of an array. -/
def stepItems (name : String) : String := name ++ "[]"

mutual
/-- The parameters of a value under a name, at a level of the metadata. -/
def leaves (maxDepth level : Nat) (name : String) (v : Value) :
    Except QueryFault (List Parameter) :=
  if maxDepth < level then .error (.tooDeep maxDepth name)
  else
    match v with
    | .null => .ok []
    | .bool b => .ok [(name, if b then "true" else "false")]
    | .number n => .ok [(name, n.text)]
    | .string s => .ok [(name, s)]
    | .array items => leavesOfItems maxDepth (level + 1) (stepItems name) items
    | .object members => leavesOfMembers maxDepth (level + 1) name members

/-- The parameters of the items of an array, all under one name. -/
def leavesOfItems (maxDepth level : Nat) (name : String) :
    List Value → Except QueryFault (List Parameter)
  | [] => .ok []
  | v :: rest => do
    let first ← leaves maxDepth level name v
    let others ← leavesOfItems maxDepth level name rest
    pure (first ++ others)

/-- The parameters of the members of an object under a name. -/
def leavesOfMembers (maxDepth level : Nat) (name : String) :
    List (String × Value) → Except QueryFault (List Parameter)
  | [] => .ok []
  | (key, v) :: rest => do
    let first ← leaves maxDepth level (stepInto name key) v
    let others ← leavesOfMembers maxDepth level name rest
    pure (first ++ others)
end

/-! ### Parameters -/

/-- The parameters of a span of time. -/
def TimeRange.parameters (name : String) : Option TimeRange → List Parameter
  | none => []
  | some range =>
    Parameter.ofOption (name ++ "[from]") Timestamp.text range.start
      ++ Parameter.ofOption (name ++ "[to]") Timestamp.text range.stop

/-- The parameters of a filter. -/
def TransactionFilter.parameters (f : TransactionFilter) : List Parameter :=
  Parameter.ofOption "includeDeleted" (fun b => if b then "true" else "false") f.includeDeleted
    ++ TimeRange.parameters "createdRange" f.createdRange
    ++ TimeRange.parameters "updatedRange" f.updatedRange
    ++ Parameter.ofText "id" f.id
    ++ Parameter.ofText "hex" f.hex
    ++ Parameter.ofText "blockHash" f.blockHash
    ++ Parameter.ofText "draftId" f.draftId
    ++ Parameter.ofText "status" f.status
    ++ Parameter.ofOption "blockHeight" toString f.blockHeight

/-- The parameters by name, each with its values in order. -/
abbrev QueryValues := SortedMap (List String)

/-- One more value for a name. -/
def QueryValues.push (values : QueryValues) (p : Parameter) : QueryValues :=
  values.insert p.1 ((values.get? p.1).getD [] ++ [p.2])

namespace TransactionsQuery

/-- The parameters of a query other than the metadata. -/
def scalarParameters (q : TransactionsQuery) : List Parameter :=
  Parameter.ofOption "page" toString q.page
    ++ Parameter.ofOption "size" toString q.pageSize
    ++ Parameter.ofText "sortBy" q.orderBy
    ++ Parameter.ofOption "sort" SortDirection.name q.sort
    ++ q.filter.parameters

/-- All parameters of a query, in the order in which they are made. -/
def parameters (q : TransactionsQuery) : Except QueryFault (List Parameter) :=
  (leavesOfMembers q.maxDepth 1 "metadata" q.metadata.entries).map (q.scalarParameters ++ ·)

/-- **The parameters of a query by name.** -/
def build (q : TransactionsQuery) : Except QueryFault QueryValues :=
  q.parameters.map fun ps => ps.foldl QueryValues.push .empty

/-- The parameters by name as pairs. -/
def pairs (values : QueryValues) : List Parameter :=
  values.entries.flatMap fun e => e.2.map fun v => (e.1, v)

/-- **The query as the part of an address** after the question mark. -/
def encode (q : TransactionsQuery) : Except QueryFault String :=
  q.build.map fun values => String.ofList (Form.encode (pairs values))

end TransactionsQuery

/-! ### Queries shown for inspection -/

/-- How a span of time is shown. -/
def TimeRange.shown (r : TimeRange) : Shown :=
  .record "TimeRange"
    [("from", .option Timestamp.shown r.start), ("to", .option Timestamp.shown r.stop)]

/-- How a filter is shown. -/
def TransactionFilter.shown (f : TransactionFilter) : Shown :=
  .record "TransactionFilter"
    [("include_deleted", .option .bool f.includeDeleted),
      ("created_range", .option TimeRange.shown f.createdRange),
      ("updated_range", .option TimeRange.shown f.updatedRange), ("id", .option .quoted f.id),
      ("hex", .option .quoted f.hex), ("block_hash", .option .quoted f.blockHash),
      ("block_height", .option .nat f.blockHeight), ("draft_id", .option .quoted f.draftId),
      ("status", .option .quoted f.status)]

/-- How a query is shown. -/
def TransactionsQuery.shown (q : TransactionsQuery) : Shown :=
  .record "TransactionsQuery"
    [("page", .option .nat q.page), ("page_size", .option .nat q.pageSize),
      ("order_by", .option .quoted q.orderBy), ("sort", .option SortDirection.shown q.sort),
      ("filter", q.filter.shown), ("metadata", Metadata.shown q.metadata),
      ("max_depth", .nat q.maxDepth)]

end WalletApi
