import WalletApi.Json.Reader
import WalletApi.Wallet.Record

/-!
# Records read from JSON

Each record lists its fields with their readers, in the order of the record. A field with a default
may be missing. The two kept records hold the common fields beside their own.
-/

namespace WalletApi

open Json Json.Fields

/-- A point in time. -/
def Timestamp.reader : Reader Timestamp :=
  Reader.parsed (fun s => (Timestamp.ofText s).mapError Timestamp.ReadFault.message)
    "an RFC 3339 formatted date and time string"

/-- A point in time that may be missing. -/
def timestampField (name : String) : Fields (Option Timestamp) :=
  withDefault name (.optional Timestamp.reader) none

/-- A direction; a name that is not known is the unknown one. -/
def TransactionDirection.reader : Reader TransactionDirection :=
  Reader.choice
    [("incoming", .incoming), ("outgoing", .outgoing), ("reconcile", .reconcile),
      ("unknown", .unknown)]
    (some .unknown)

/-- An order. -/
def SortDirection.reader : Reader SortDirection :=
  Reader.choice [("asc", .asc), ("desc", .desc)] none

/-- The common fields. -/
def Model.fields : Fields Model :=
  Fields.pure Model.mk
    |>.and (withDefault "metadata" (.optional Reader.metadata) none)
    |>.and (timestampField "createdAt")
    |>.and (timestampField "updatedAt")
    |>.and (timestampField "deletedAt")

/-- The common fields alone. -/
def Model.reader : Reader Model := record "Model" Model.fields

/-- The fields of a transaction beside the common ones. -/
def Transaction.ownFields : Fields (Model → Transaction) :=
  Fields.pure (fun id hex xpubInIds xpubOutIds blockHash blockHeight fee numberOfInputs
      numberOfOutputs draftId totalValue outputValue outputs status direction model =>
    Transaction.mk model id hex xpubInIds xpubOutIds blockHash blockHeight fee numberOfInputs
      numberOfOutputs draftId totalValue outputValue outputs status direction)
    |>.and (required "id" .string)
    |>.and (withDefault "hex" .string "")
    |>.and (withDefault "xpubInIds" (.list .string) [])
    |>.and (withDefault "xpubOutIds" (.list .string) [])
    |>.and (withDefault "blockHash" .string "")
    |>.and (withDefault "blockHeight" .u64 0)
    |>.and (withDefault "fee" .u64 0)
    |>.and (withDefault "numberOfInputs" .u32 0)
    |>.and (withDefault "numberOfOutputs" .u32 0)
    |>.and (withDefault "draftId" .string "")
    |>.and (withDefault "totalValue" .u64 0)
    |>.and (withDefault "outputValue" .i64 0)
    |>.and (withDefault "outputs" (.map .i64) .empty)
    |>.and (withDefault "status" .string "")
    |>.and (field ["direction", "transactionDirection"] (some none)
      (.optional TransactionDirection.reader))

/-- A transaction. -/
def Transaction.reader : Reader Transaction :=
  recordWith "Transaction" Transaction.ownFields Model.fields

/-- An output. -/
def TransactionOutput.reader : Reader TransactionOutput :=
  record "TransactionOutput"
    (Fields.pure TransactionOutput.mk
      |>.and (withDefault "to" .string "")
      |>.and (withDefault "satoshis" .u64 0)
      |>.and (withDefault "script" .string "")
      |>.and (withDefault "useForChange" .bool false))

/-- A configuration. -/
def TransactionConfig.reader : Reader TransactionConfig :=
  record "TransactionConfig"
    (Fields.pure TransactionConfig.mk
      |>.and (withDefault "changeStrategy" .string "")
      |>.and (withDefault "changeMinimumSatoshis" .u64 0)
      |>.and (withDefault "changeNumberOfDestinations" .u32 0)
      |>.and (withDefault "changeSatoshis" .u64 0)
      |>.and (withDefault "expiresIn" .u64 0)
      |>.and (withDefault "fee" .u64 0)
      |>.and (withDefault "outputs" (.list TransactionOutput.reader) []))

/-- The fields of a draft beside the common ones. -/
def DraftTransaction.ownFields : Fields (Model → DraftTransaction) :=
  Fields.pure (fun id hex xpubId expiresAt configuration status finalTxId model =>
    DraftTransaction.mk model id hex xpubId expiresAt configuration status finalTxId)
    |>.and (required "id" .string)
    |>.and (withDefault "hex" .string "")
    |>.and (withDefault "xpubId" .string "")
    |>.and (timestampField "expiresAt")
    |>.and (withDefault "configuration" TransactionConfig.reader .default)
    |>.and (withDefault "status" .string "")
    |>.and (withDefault "finalTxId" .string "")

/-- A draft. -/
def DraftTransaction.reader : Reader DraftTransaction :=
  recordWith "DraftTransaction" DraftTransaction.ownFields Model.fields

/-- Shared settings. -/
def SharedConfig.reader : Reader SharedConfig :=
  record "SharedConfig"
    (Fields.pure SharedConfig.mk
      |>.and (withDefault "paymailDomains" (.list .string) [])
      |>.and (withDefault "experimentalFeatures" (.map .bool) .empty))

/-- The place of a page. -/
def PageDescription.reader : Reader PageDescription :=
  record "PageDescription"
    (Fields.pure PageDescription.mk
      |>.and (required "size" .u32)
      |>.and (required "number" .u32)
      |>.and (required "totalElements" .u64)
      |>.and (required "totalPages" .u32))

/-- A page, its entries read by a reader. -/
def PageModel.reader {α : Type} (r : Reader α) : Reader (PageModel α) :=
  record "PageModel"
    (Fields.pure PageModel.mk
      |>.and (withDefault "content" (.list r) [])
      |>.and (withDefault "page" PageDescription.reader .default))

/-- A request for a draft. -/
def DraftTransactionRequest.reader : Reader DraftTransactionRequest :=
  record "DraftTransactionRequest"
    (Fields.pure DraftTransactionRequest.mk
      |>.and (required "config" TransactionConfig.reader)
      |>.and (withDefault "metadata" .metadata .empty))

/-- A request to record a transaction. -/
def RecordTransactionRequest.reader : Reader RecordTransactionRequest :=
  record "RecordTransactionRequest"
    (Fields.pure RecordTransactionRequest.mk
      |>.and (withDefault "metadata" .metadata .empty)
      |>.and (required "hex" .string)
      |>.and (required "referenceId" .string))

/-- A request to change metadata, which names no transaction. -/
def UpdateTransactionMetadataRequest.reader : Reader UpdateTransactionMetadataRequest :=
  record "UpdateTransactionMetadataRequest"
    (Fields.pure (UpdateTransactionMetadataRequest.mk "")
      |>.and (required "metadata" .metadata))

end WalletApi
