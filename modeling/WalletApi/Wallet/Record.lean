import WalletApi.Calendar.Timestamp
import WalletApi.Json.Value

/-!
# Wallet records

What the server keeps and what it is asked to do: transactions and their drafts, the configuration
of a draft, pages of a listing, the settings that the server shares with all clients, and the bodies
of requests.
-/

namespace WalletApi

open Json (Metadata)

/-- Which way a transaction moves money, from the wallet's point of view. -/
inductive TransactionDirection
  | incoming
  | outgoing
  | reconcile
  /-- Any direction that has no other name. -/
  | unknown
deriving DecidableEq

/-- The order of a listing. -/
inductive SortDirection
  | asc
  | desc
deriving DecidableEq

/-- The name of an order. -/
def SortDirection.name : SortDirection → String
  | .asc => "asc"
  | .desc => "desc"

/-- The fields that every kept record has. -/
structure Model where
  metadata : Option Metadata
  createdAt : Option Timestamp
  updatedAt : Option Timestamp
  deletedAt : Option Timestamp
deriving BEq

/-- **A transaction.** -/
structure Transaction where
  model : Model
  id : String
  hex : String
  xpubInIds : List String
  xpubOutIds : List String
  blockHash : String
  blockHeight : Nat
  fee : Nat
  numberOfInputs : Nat
  numberOfOutputs : Nat
  draftId : String
  totalValue : Nat
  outputValue : Int
  outputs : SortedMap Int
  status : String
  direction : Option TransactionDirection
deriving BEq

/-- An output that a draft asks for. -/
structure TransactionOutput where
  recipient : String
  satoshis : Nat
  script : String
  useForChange : Bool
deriving BEq

/-- What a draft asks for: outputs, and the policy for change and fee. -/
structure TransactionConfig where
  changeStrategy : String
  changeMinimumSatoshis : Nat
  changeNumberOfDestinations : Nat
  changeSatoshis : Nat
  expiresIn : Nat
  fee : Nat
  outputs : List TransactionOutput
deriving BEq

/-- **A draft of a transaction.** -/
structure DraftTransaction where
  model : Model
  id : String
  hex : String
  xpubId : String
  expiresAt : Option Timestamp
  configuration : TransactionConfig
  status : String
  finalTxId : String
deriving BEq

/-- The settings that the server shares with its clients. -/
structure SharedConfig where
  paymailDomains : List String
  experimentalFeatures : SortedMap Bool
deriving BEq

/-- The place of a page in its listing. -/
structure PageDescription where
  size : Nat
  number : Nat
  totalElements : Nat
  totalPages : Nat
deriving BEq

/-- **A page of a listing.** -/
structure PageModel (α : Type) where
  content : List α
  page : PageDescription
deriving BEq

/-! ### Bodies of requests -/

/-- The request for a draft. -/
structure DraftTransactionRequest where
  config : TransactionConfig
  metadata : Metadata
deriving BEq

/-- The request to record a transaction that was made from a draft. -/
structure RecordTransactionRequest where
  metadata : Metadata
  hex : String
  referenceId : String
deriving BEq

/-- The request to change the metadata of a transaction, which is named by the address of the
request and not by its body. -/
structure UpdateTransactionMetadataRequest where
  id : String
  metadata : Metadata
deriving BEq

/-! ### Default records -/

/-- Common fields that are all missing. -/
def Model.default : Model := ⟨none, none, none, none⟩

/-- An output without a receiver. -/
def TransactionOutput.default : TransactionOutput := ⟨"", 0, "", false⟩

/-- A configuration that asks for nothing. -/
def TransactionConfig.default : TransactionConfig := ⟨"", 0, 0, 0, 0, 0, []⟩

/-- Shared settings without any entry. -/
def SharedConfig.default : SharedConfig := ⟨[], .empty⟩

/-- The place of a page without a listing. -/
def PageDescription.default : PageDescription := ⟨0, 0, 0, 0⟩

/-- A request for a draft that asks for nothing. -/
def DraftTransactionRequest.default : DraftTransactionRequest := ⟨.default, .empty⟩

/-- A request to record nothing. -/
def RecordTransactionRequest.default : RecordTransactionRequest := ⟨.empty, "", ""⟩

/-- A request that changes nothing. -/
def UpdateTransactionMetadataRequest.default : UpdateTransactionMetadataRequest := ⟨"", .empty⟩

end WalletApi
