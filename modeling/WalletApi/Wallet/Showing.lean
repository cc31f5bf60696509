import WalletApi.Wallet.Record

/-!
# Records shown for inspection

Every record is shown with its name and all its fields, missing ones too.
-/

namespace WalletApi

open Json (Metadata)

/-- A list of texts. -/
def Shown.texts (l : List String) : Shown := .list (l.map .quoted)

/-- A sorted map, its values shown by a function. -/
def Shown.sortedMap {α : Type} (f : α → Shown) (m : SortedMap α) : Shown :=
  .map (m.entries.map fun e => (Text.quote e.1, f e.2))

/-- A point in time stands for itself. -/
def Timestamp.shown (t : Timestamp) : Shown := .atom t.text

/-- How a direction is shown. -/
def TransactionDirection.shown : TransactionDirection → Shown
  | .incoming => .atom "Incoming"
  | .outgoing => .atom "Outgoing"
  | .reconcile => .atom "Reconcile"
  | .unknown => .atom "Unknown"

/-- How an order is shown. -/
def SortDirection.shown : SortDirection → Shown
  | .asc => .atom "Asc"
  | .desc => .atom "Desc"

/-- How the common fields are shown. -/
def Model.shown (m : Model) : Shown :=
  .record "Model"
    [("metadata", .option Metadata.shown m.metadata),
      ("created_at", .option Timestamp.shown m.createdAt),
      ("updated_at", .option Timestamp.shown m.updatedAt),
      ("deleted_at", .option Timestamp.shown m.deletedAt)]

/-- How a transaction is shown. -/
def Transaction.shown (t : Transaction) : Shown :=
  .record "Transaction"
    [("model", t.model.shown), ("id", .quoted t.id), ("hex", .quoted t.hex),
      ("xpub_in_ids", .texts t.xpubInIds), ("xpub_out_ids", .texts t.xpubOutIds),
      ("block_hash", .quoted t.blockHash), ("block_height", .nat t.blockHeight),
      ("fee", .nat t.fee), ("number_of_inputs", .nat t.numberOfInputs),
      ("number_of_outputs", .nat t.numberOfOutputs), ("draft_id", .quoted t.draftId),
      ("total_value", .nat t.totalValue), ("output_value", .int t.outputValue),
      ("outputs", .sortedMap .int t.outputs), ("status", .quoted t.status),
      ("transaction_direction", .option TransactionDirection.shown t.direction)]

/-- How an output is shown. -/
def TransactionOutput.shown (o : TransactionOutput) : Shown :=
  .record "TransactionOutput"
    [("to", .quoted o.recipient), ("satoshis", .nat o.satoshis), ("script", .quoted o.script),
      ("use_for_change", .bool o.useForChange)]

/-- How a configuration is shown. -/
def TransactionConfig.shown (c : TransactionConfig) : Shown :=
  .record "TransactionConfig"
    [("change_strategy", .quoted c.changeStrategy),
      ("change_minimum_satoshis", .nat c.changeMinimumSatoshis),
      ("change_number_of_destinations", .nat c.changeNumberOfDestinations),
      ("change_satoshis", .nat c.changeSatoshis), ("expires_in", .nat c.expiresIn),
      ("fee", .nat c.fee), ("outputs", .list (c.outputs.map TransactionOutput.shown))]

/-- How a draft is shown. -/
def DraftTransaction.shown (d : DraftTransaction) : Shown :=
  .record "DraftTransaction"
    [("model", d.model.shown), ("id", .quoted d.id), ("hex", .quoted d.hex),
      ("xpub_id", .quoted d.xpubId), ("expires_at", .option Timestamp.shown d.expiresAt),
      ("configuration", d.configuration.shown), ("status", .quoted d.status),
      ("final_tx_id", .quoted d.finalTxId)]

/-- How shared settings are shown. -/
def SharedConfig.shown (c : SharedConfig) : Shown :=
  .record "SharedConfig"
    [("paymail_domains", .texts c.paymailDomains),
      ("experimental_features", .sortedMap .bool c.experimentalFeatures)]

/-- How the place of a page is shown. -/
def PageDescription.shown (p : PageDescription) : Shown :=
  .record "PageDescription"
    [("size", .nat p.size), ("number", .nat p.number), ("total_elements", .nat p.totalElements),
      ("total_pages", .nat p.totalPages)]

/-- How a page is shown, its entries by a function. -/
def PageModel.shown {α : Type} (f : α → Shown) (p : PageModel α) : Shown :=
  .record "PageModel" [("content", .list (p.content.map f)), ("page", p.page.shown)]

/-- How a request for a draft is shown. -/
def DraftTransactionRequest.shown (r : DraftTransactionRequest) : Shown :=
  .record "DraftTransactionRequest"
    [("config", r.config.shown), ("metadata", Metadata.shown r.metadata)]

/-- How a request to record a transaction is shown. -/
def RecordTransactionRequest.shown (r : RecordTransactionRequest) : Shown :=
  .record "RecordTransactionRequest"
    [("metadata", Metadata.shown r.metadata), ("hex", .quoted r.hex),
      ("reference_id", .quoted r.referenceId)]

/-- How a request to change metadata is shown. -/
def UpdateTransactionMetadataRequest.shown (r : UpdateTransactionMetadataRequest) : Shown :=
  .record "UpdateTransactionMetadataRequest"
    [("id", .quoted r.id), ("metadata", Metadata.shown r.metadata)]

end WalletApi
