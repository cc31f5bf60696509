import WalletApi.Wallet.Record

/-!
# Records written as JSON

A record is an object with its fields in the order of the record. Fields that may be missing are
left out when they are, and so are some texts when they are empty.
-/

namespace WalletApi

open Json (Value Metadata)

/-- A member. -/
def member (name : String) (v : Value) : List (String × Value) := [(name, v)]

/-- A member that is left out when its value is missing. -/
def memberIfSome {α : Type} (name : String) (f : α → Value) : Option α → List (String × Value)
  | none => []
  | some a => [(name, f a)]

/-- A member that is left out when its text is empty. -/
def memberIfText (name s : String) : List (String × Value) :=
  if s = "" then [] else [(name, .string s)]

/-- A point in time. -/
def Timestamp.toValue (t : Timestamp) : Value := .string t.text

/-- The name of a direction. -/
def TransactionDirection.name : TransactionDirection → String
  | .incoming => "incoming"
  | .outgoing => "outgoing"
  | .reconcile => "reconcile"
  | .unknown => "unknown"

/-- A direction. -/
def TransactionDirection.toValue (d : TransactionDirection) : Value := .string d.name

/-- An order. -/
def SortDirection.toValue (d : SortDirection) : Value := .string d.name

/-- The members of the common fields. -/
def Model.members (m : Model) : List (String × Value) :=
  memberIfSome "metadata" Value.metadata m.metadata
    ++ memberIfSome "createdAt" Timestamp.toValue m.createdAt
    ++ memberIfSome "updatedAt" Timestamp.toValue m.updatedAt
    ++ memberIfSome "deletedAt" Timestamp.toValue m.deletedAt

/-- The common fields. -/
def Model.toValue (m : Model) : Value := .object m.members

/-- A transaction. -/
def Transaction.toValue (t : Transaction) : Value :=
  .object (t.model.members ++
    [("id", .string t.id), ("hex", .string t.hex), ("xpubInIds", .strings t.xpubInIds),
      ("xpubOutIds", .strings t.xpubOutIds), ("blockHash", .string t.blockHash),
      ("blockHeight", .nat t.blockHeight), ("fee", .nat t.fee),
      ("numberOfInputs", .nat t.numberOfInputs), ("numberOfOutputs", .nat t.numberOfOutputs),
      ("draftId", .string t.draftId), ("totalValue", .nat t.totalValue),
      ("outputValue", .int t.outputValue), ("outputs", .map .int t.outputs),
      ("status", .string t.status)]
    ++ memberIfSome "direction" TransactionDirection.toValue t.direction)

/-- An output. -/
def TransactionOutput.toValue (o : TransactionOutput) : Value :=
  .object (memberIfText "to" o.recipient ++ member "satoshis" (.nat o.satoshis)
    ++ memberIfText "script" o.script ++ member "useForChange" (.bool o.useForChange))

/-- A configuration. -/
def TransactionConfig.toValue (c : TransactionConfig) : Value :=
  .object (memberIfText "changeStrategy" c.changeStrategy ++
    [("changeMinimumSatoshis", .nat c.changeMinimumSatoshis),
      ("changeNumberOfDestinations", .nat c.changeNumberOfDestinations),
      ("changeSatoshis", .nat c.changeSatoshis), ("expiresIn", .nat c.expiresIn),
      ("fee", .nat c.fee), ("outputs", .array (c.outputs.map TransactionOutput.toValue))])

/-- A draft. -/
def DraftTransaction.toValue (d : DraftTransaction) : Value :=
  .object (d.model.members ++
    [("id", .string d.id), ("hex", .string d.hex), ("xpubId", .string d.xpubId)]
    ++ memberIfSome "expiresAt" Timestamp.toValue d.expiresAt ++
    [("configuration", d.configuration.toValue), ("status", .string d.status)]
    ++ memberIfText "finalTxId" d.finalTxId)

/-- Shared settings. -/
def SharedConfig.toValue (c : SharedConfig) : Value :=
  .object [("paymailDomains", .strings c.paymailDomains),
    ("experimentalFeatures", .map .bool c.experimentalFeatures)]

/-- The place of a page. -/
def PageDescription.toValue (p : PageDescription) : Value :=
  .object [("size", .nat p.size), ("number", .nat p.number),
    ("totalElements", .nat p.totalElements), ("totalPages", .nat p.totalPages)]

/-- A page, its entries written by a function. -/
def PageModel.toValue {α : Type} (f : α → Value) (p : PageModel α) : Value :=
  .object [("content", .array (p.content.map f)), ("page", p.page.toValue)]

/-- A request for a draft. -/
def DraftTransactionRequest.toValue (r : DraftTransactionRequest) : Value :=
  .object [("config", r.config.toValue), ("metadata", .metadata r.metadata)]

/-- A request to record a transaction. -/
def RecordTransactionRequest.toValue (r : RecordTransactionRequest) : Value :=
  .object [("metadata", .metadata r.metadata), ("hex", .string r.hex),
    ("referenceId", .string r.referenceId)]

/-- A request to change metadata, without the name of the transaction. -/
def UpdateTransactionMetadataRequest.toValue (r : UpdateTransactionMetadataRequest) : Value :=
  .object [("metadata", .metadata r.metadata)]

end WalletApi
