import WalletApi.Proofs.Json.Repeating
import WalletApi.Proofs.Json.Shuffling
import WalletApi.Proofs.Wallet.RoundTrip

/-!
# What a newer server may change in its answers

A client outlives the server that it was written for. The server may put the members of its objects
in another order, write the direction of a transaction under its other name, and add members that
the client has never heard of; none of this may change what the client reads. What it may not do is
write a field twice.

The answers are the two kept records, pages of either, and the shared settings
(`WalletApi.ResponseKind`). All the changes together make one relation between the documents of two
answers (`WalletApi.ResponseKind.Revises`), and the order in which they are undone is that of the
modules below: first the order of the members, for which every reader of the records keeps its
answers between a document and a rearrangement of it, then the spelling of the direction, and last
the added members. A field that stands twice is never read; which error is told is said as exactly
as the client can tell it, since the value of a direction or of a configuration may be refused
before the second member is met.
-/

namespace WalletApi

open Json Json.Fields Json.Doc

/-! ### The readers of the records -/

section Readers

open Reader

theorem Timestamp.respects_reader : Timestamp.reader.Respects Shuffles := respects_parsed _ _

theorem TransactionDirection.respects_reader : TransactionDirection.reader.Respects Shuffles :=
  respects_choice _ _

/-- The common fields do not show in which order anything stands in them. -/
theorem Model.respects_fields : Model.fields.Respects fun _ => Shuffles :=
  ((((All.pure Model.mk).and respects_metadata.optional).and
    Timestamp.respects_reader.optional).and Timestamp.respects_reader.optional).and
    Timestamp.respects_reader.optional

theorem Transaction.respects_ownFields : Transaction.ownFields.Respects fun _ => Shuffles :=
  (((((((((((((((All.pure _).and respects_string).and respects_string).and
    respects_string.list).and respects_string.list).and respects_string).and respects_u64).and
    respects_u64).and respects_u32).and respects_u32).and respects_string).and respects_u64).and
    respects_i64).and respects_i64.sortedMap).and respects_string).and
    TransactionDirection.respects_reader.optional

theorem TransactionOutput.respects_reader : TransactionOutput.reader.Respects Shuffles := by
  refine respects_record _ ?_ (by decide)
  exact ((((All.pure TransactionOutput.mk).and respects_string).and respects_u64).and
    respects_string).and respects_bool

theorem TransactionConfig.respects_reader : TransactionConfig.reader.Respects Shuffles := by
  refine respects_record _ ?_ (by decide)
  exact (((((((All.pure TransactionConfig.mk).and respects_string).and respects_u64).and
    respects_u32).and respects_u64).and respects_u64).and respects_u64).and
    TransactionOutput.respects_reader.list

theorem DraftTransaction.respects_ownFields :
    DraftTransaction.ownFields.Respects fun _ => Shuffles :=
  (((((((All.pure _).and respects_string).and respects_string).and respects_string).and
    Timestamp.respects_reader.optional).and TransactionConfig.respects_reader).and
    respects_string).and respects_string

theorem SharedConfig.exists_reader_eq : ∃ fields : Fields SharedConfig,
    SharedConfig.reader = record "SharedConfig" fields ∧
      fields.names = ["paymailDomains", "experimentalFeatures"] ∧
      fields.Respects fun _ => Shuffles :=
  ⟨_, rfl, rfl, ((All.pure SharedConfig.mk).and respects_string.list).and respects_bool.sortedMap⟩

theorem SharedConfig.respects_reader : SharedConfig.reader.Respects Shuffles := by
  obtain ⟨fields, hreader, hnames, hfields⟩ := exists_reader_eq
  rw [hreader]
  exact respects_record _ hfields (hnames ▸ by decide)

theorem PageDescription.respects_reader : PageDescription.reader.Respects Shuffles := by
  refine respects_record _ ?_ (by decide)
  exact ((((All.pure PageDescription.mk).and respects_u32).and respects_u32).and
    respects_u64).and respects_u32

theorem PageModel.exists_reader_eq {α : Type} {r : Reader α} (hr : r.Respects Shuffles) :
    ∃ fields : Fields (PageModel α), PageModel.reader r = record "PageModel" fields ∧
      fields.names = ["content", "page"] ∧ fields.Respects fun _ => Shuffles :=
  ⟨_, rfl, rfl, ((All.pure PageModel.mk).and hr.list).and PageDescription.respects_reader⟩

theorem PageModel.respects_reader {α : Type} {r : Reader α} (hr : r.Respects Shuffles) :
    (PageModel.reader r).Respects Shuffles := by
  obtain ⟨fields, hreader, hnames, hfields⟩ := exists_reader_eq hr
  rw [hreader]
  exact respects_record _ hfields (hnames ▸ by decide)

end Readers

/-! ### The answers -/

/-- The two kept records. -/
inductive RecordKind
  | transaction
  | draftTransaction

/-- **What the server answers with.** -/
inductive ResponseKind
  | record (k : RecordKind)
  /-- A page of records. -/
  | page (k : RecordKind)
  | sharedConfig

/-- The names that the direction of a transaction is written under. -/
def directionNames : List String := ["direction", "transactionDirection"]

namespace RecordKind

/-- The records of a kind. -/
def Record : RecordKind → Type
  | .transaction => Transaction
  | .draftTransaction => DraftTransaction

/-- How a record is read. -/
def reader : (k : RecordKind) → Reader k.Record
  | .transaction => Transaction.reader
  | .draftTransaction => DraftTransaction.reader

/-- The fields of a record beside the common ones. -/
def ownFields : (k : RecordKind) → Fields (Model → k.Record)
  | .transaction => Transaction.ownFields
  | .draftTransaction => DraftTransaction.ownFields

/-- The names of a record's members: its own, those of the direction among them, and the common
ones. -/
def wireNames : RecordKind → List String
  | .transaction =>
    ["id", "hex", "xpubInIds", "xpubOutIds", "blockHash", "blockHeight", "fee", "numberOfInputs",
      "numberOfOutputs", "draftId", "totalValue", "outputValue", "outputs", "status", "direction",
      "transactionDirection", "metadata", "createdAt", "updatedAt", "deletedAt"]
  | .draftTransaction =>
    ["id", "hex", "xpubId", "expiresAt", "configuration", "status", "finalTxId", "metadata",
      "createdAt", "updatedAt", "deletedAt"]

/-- Two names of one field: they are the same, or both are names of the direction. -/
def SameField (k : RecordKind) (s t : String) : Prop :=
  s ∈ k.wireNames ∧ t ∈ k.wireNames ∧ (s = t ∨ s ∈ directionNames ∧ t ∈ directionNames)

theorem exists_reader_eq (k : RecordKind) :
    ∃ name, k.reader = recordWith name k.ownFields Model.fields := by
  cases k with
  | transaction => exact ⟨_, rfl⟩
  | draftTransaction => exact ⟨_, rfl⟩

theorem nodup_names (k : RecordKind) : (Model.fields.names ++ k.ownFields.names).Nodup := by
  cases k with
  | transaction => exact Transaction.nodup_names
  | draftTransaction => exact DraftTransaction.nodup_names

theorem wireNames_eq (k : RecordKind) : k.wireNames = k.ownFields.names ++ Model.fields.names := by
  cases k with
  | transaction => rfl
  | draftTransaction => rfl

theorem respects_ownFields (k : RecordKind) : k.ownFields.Respects fun _ => Shuffles := by
  cases k with
  | transaction => exact Transaction.respects_ownFields
  | draftTransaction => exact DraftTransaction.respects_ownFields

theorem respects_reader (k : RecordKind) : k.reader.Respects Shuffles := by
  obtain ⟨name, hreader⟩ := k.exists_reader_eq
  rw [hreader]
  exact respects_recordWith name k.respects_ownFields Model.respects_fields k.nodup_names

end RecordKind

namespace ResponseKind

/-- What an answer holds. -/
def Value : ResponseKind → Type
  | .record k => k.Record
  | .page k => PageModel k.Record
  | .sharedConfig => SharedConfig

/-- How an answer is read. -/
def reader : (k : ResponseKind) → Reader k.Value
  | .record k => k.reader
  | .page k => PageModel.reader k.reader
  | .sharedConfig => SharedConfig.reader

/-- The names of the members of an answer. -/
def wireNames : ResponseKind → List String
  | .record k => k.wireNames
  | .page _ => ["content", "page"]
  | .sharedConfig => ["paymailDomains", "experimentalFeatures"]

/-- **No answer shows in which order anything stands in it.** -/
theorem respects_reader (k : ResponseKind) : k.reader.Respects Shuffles := by
  cases k with
  | record k => exact k.respects_reader
  | page k => exact PageModel.respects_reader k.respects_reader
  | sharedConfig => exact SharedConfig.respects_reader

end ResponseKind

/-! ### The spelling of the direction -/

/-- A member as it was, or the direction under another of its names. -/
def RespelledMember (m m' : Doc × Doc) : Prop :=
  m'.2 = m.2 ∧ (m'.1 = m.1 ∨
    ∃ s ∈ directionNames, ∃ t ∈ directionNames, m.1 = .string s ∧ m'.1 = .string t)

/-- **A transaction** as it was, or with its direction under another name. -/
inductive Respelled : Doc → Doc → Prop
  | same (d : Doc) : Respelled d d
  | object {members members' : List (Doc × Doc)} {close : Option Fault}
    (h : List.Forall₂ RespelledMember members members') :
    Respelled (.object members close) (.object members' close)

/-- A list of transactions, each as it was or with its direction under another name. -/
inductive RespelledItems : Doc → Doc → Prop
  | array {items items' : List Doc} {close : Option Fault}
    (h : List.Forall₂ Respelled items items') :
    RespelledItems (.array items close) (.array items' close)

/-- The value of a page's member under a name, as it was or with other names in its transactions. -/
def RespelledValue (name : String) (d d' : Doc) : Prop :=
  d' = d ∨ name = "content" ∧ RespelledItems d d'

/-- **A page of transactions**, each as it was or with its direction under another name. -/
inductive RespelledPage : Doc → Doc → Prop
  | object {members members' : List (Doc × Doc)} {close : Option Fault}
    (h : List.Forall₂ (fun m m' => m'.1 = m.1 ∧
      (m'.2 = m.2 ∨ m.1 = .string "content" ∧ RespelledItems m.2 m'.2)) members members') :
    RespelledPage (.object members close) (.object members' close)

theorem fieldOf_direction {s : String} (hs : s ∈ directionNames) (d : Doc) :
    fieldOf Transaction.ownFields.table (.string s, d) =
      some (directionNames, fun depth d =>
        (Reader.optional TransactionDirection.reader depth d).map fun _ => ()) := by
  have hnames : Transaction.ownFields.names.Nodup :=
    (List.nodup_append.mp Transaction.nodup_names).2.1
  refine (fieldOf_eq_some_iff hnames ?_).mpr hs
  exact List.mem_append_right _ List.mem_cons_self

/-- The common fields have no name of the direction. -/
theorem fieldOf_direction_eq_none {s : String} (hs : s ∈ directionNames) (d : Doc) :
    fieldOf Model.fields.table (.string s, d) = none := by
  have hapart : ∀ t ∈ directionNames, t ∉ Model.fields.names := by decide
  exact find?_table_eq_none (hapart s hs)

/-- A respelled member is for the same field of a transaction, or for none of the common ones. -/
theorem RespelledMember.keeps {m m' : Doc × Doc} {depth : ℕ} (h : RespelledMember m m') :
    Keeps (fun _ => Eq) Transaction.ownFields.table kept depth m m' ∧
      Keeps (fun _ => Eq) Model.fields.table passedOver depth m m' := by
  obtain ⟨k, d⟩ := m
  obtain ⟨k', d'⟩ := m'
  obtain ⟨rfl, hkey | ⟨s, hs, t, ht, hk, hk'⟩⟩ := h
  · obtain rfl := hkey
    exact ⟨.refl _, .refl _⟩
  · obtain rfl := hk
    obtain rfl := hk'
    have hnamed : (∃ u, (Doc.string t, d').1 = .string u) ↔ ∃ u, (Doc.string s, d').1 = .string u :=
      ⟨fun _ => ⟨s, rfl⟩, fun _ => ⟨t, rfl⟩⟩
    refine ⟨⟨hnamed, ?_, fun _ _ => rfl, fun _ h => h⟩, ⟨hnamed, ?_, fun _ _ => rfl, fun _ h => h⟩⟩
    · rw [fieldOf_direction hs, fieldOf_direction ht]
    · rw [fieldOf_direction_eq_none hs, fieldOf_direction_eq_none ht]

/-- **The direction of a transaction is read under each of its names.** -/
theorem Transaction.respects_respelled : Transaction.reader.Respects Respelled := by
  refine ⟨fun hd h => ?_⟩
  cases hd with
  | same => exact h
  | @object members members' close hmembers =>
    refine recordWith_of_revised Transaction.respects_ownFields.respects_eq
      Model.respects_fields.respects_eq Transaction.nodup_names
      (fun _ => hmembers.imp fun _ _ hm => hm.keeps) (fun _ _ => List.forall_mem_nil _) ?_ h
    rw [List.append_nil]

theorem respects_respelledItems {α : Type} {r : Reader α} (hr : r.Respects Respelled) :
    (Reader.list r).Respects (RespelledValue "content") := by
  refine ⟨fun hd h => ?_⟩
  rcases hd with rfl | ⟨-, ⟨hitems⟩⟩
  · exact h
  · obtain ⟨hclose, inside, henter, has⟩ := Reader.list_array_eq_ok_iff.mp h
    exact Reader.list_array_eq_ok_iff.mpr
      ⟨hclose, inside, henter, Reader.readItems_of_related hr.reads hitems has⟩

/-- **So it is in the transactions of a page.** -/
theorem PageModel.respects_respelled {α : Type} {r : Reader α} (hr : r.Respects Respelled) :
    (PageModel.reader r).Respects RespelledPage := by
  have hpage : PageDescription.reader.Respects (RespelledValue "page") := by
    refine ⟨fun hd h => ?_⟩
    rcases hd with rfl | ⟨hname, -⟩
    · exact h
    · exact absurd hname (by decide)
  refine ⟨fun hd h => ?_⟩
  obtain ⟨hmembers⟩ := hd
  refine record_of_revised (R := RespelledValue)
    (((All.pure PageModel.mk).and (respects_respelledItems hr)).and hpage)
    (show ["content", "page"].Nodup by decide) (fun inside => ?_) h
  refine ⟨hmembers.imp fun m m' hm => ?_, List.forall_mem_nil _, by rw [List.append_nil]⟩
  obtain ⟨k, d⟩ := m
  obtain ⟨k', d'⟩ := m'
  obtain ⟨hkey, hvalue⟩ := hm
  obtain rfl := hkey
  refine ⟨Iff.rfl, rfl, fun entry hentry => ?_, fun hentry hread => ?_⟩
  · rcases hvalue with heq | ⟨hcontent, hitems⟩
    · exact .inl heq
    · obtain rfl := hcontent
      obtain rfl := Option.some.inj hentry
      exact .inr ⟨rfl, hitems⟩
  · rcases hvalue with heq | ⟨hcontent, -⟩
    · obtain rfl := heq
      exact hread
    · obtain rfl := hcontent
      cases hentry

/-! ### Added members -/

namespace ResponseKind

/-- **How an answer may be spelled**: the direction of a transaction has two names. -/
def Respells : ResponseKind → Doc → Doc → Prop
  | .record .transaction => Respelled
  | .page .transaction => RespelledPage
  | _ => Eq

/-- **No answer shows which names were chosen in it.** -/
theorem respects_respells (k : ResponseKind) : k.reader.Respects k.Respells := by
  cases k with
  | record k =>
    cases k with
    | transaction => exact Transaction.respects_respelled
    | draftTransaction => exact ⟨fun heq h => heq ▸ h⟩
  | page k =>
    cases k with
    | transaction => exact PageModel.respects_respelled Transaction.respects_respelled
    | draftTransaction => exact ⟨fun heq h => heq ▸ h⟩
  | sharedConfig => exact ⟨fun heq h => heq ▸ h⟩

/-- **A member that the client does not know**: it has none of the names of the answer, and a value
that is JSON, no deeper than what is inside of the answer may nest. -/
def IsUnknown (k : ResponseKind) (m : Doc × Doc) : Prop :=
  ∃ s, m.1 = .string s ∧ s ∉ k.wireNames ∧ ∃ v, Reader.value (maxDepth - 1) m.2 = .ok v

variable {members added members' : List (Doc × Doc)} {close : Option Fault}

/-- What is not known as an answer is not known to the fields that the answer is read by. -/
theorem record_of_unknown (k : ResponseKind) {α : Type} {name : String} {fields : Fields α} {a : α}
    (hnames : fields.names = k.wireNames) (hnodup : k.wireNames.Nodup)
    (hfields : fields.Respects fun _ => Shuffles) (hadded : ∀ m ∈ added, k.IsUnknown m)
    (hperm : (members ++ added).Perm members')
    (h : Fields.record name fields maxDepth (.object members close) = .ok a) :
    Fields.record name fields maxDepth (.object members' close) = .ok a := by
  refine record_of_added hfields (hnames ▸ hnodup) (fun m hm => ?_) hperm h
  obtain ⟨s, hs, hname, v, hv⟩ := hadded m hm
  exact ⟨s, maxDepth - 1, v, hs, hnames ▸ hname, hv⟩

theorem read_of_added (k : ResponseKind) {v : k.Value} (hadded : ∀ m ∈ added, k.IsUnknown m)
    (hperm : (members ++ added).Perm members')
    (h : k.reader maxDepth (.object members close) = .ok v) :
    k.reader maxDepth (.object members' close) = .ok v := by
  cases k with
  | record k =>
    obtain ⟨name, hreader⟩ := k.exists_reader_eq
    show k.reader maxDepth (.object members' close) = .ok v
    have h' : k.reader maxDepth (.object members close) = .ok v := h
    rw [hreader] at h' ⊢
    refine recordWith_of_added k.respects_ownFields Model.respects_fields k.nodup_names rfl
      (fun m hm => ?_) hperm h'
    obtain ⟨s, hs, hname, v, hv⟩ := hadded m hm
    exact ⟨s, v, hs, k.wireNames_eq ▸ hname, hv⟩
  | page k =>
    obtain ⟨fields, hreader, hnames, hfields⟩ := PageModel.exists_reader_eq k.respects_reader
    show PageModel.reader k.reader maxDepth (.object members' close) = .ok v
    have h' : PageModel.reader k.reader maxDepth (.object members close) = .ok v := h
    rw [hreader] at h' ⊢
    have hnodup : (ResponseKind.page k).wireNames.Nodup :=
      show ["content", "page"].Nodup by decide
    exact record_of_unknown (.page k) hnames hnodup hfields hadded hperm h'
  | sharedConfig =>
    obtain ⟨fields, hreader, hnames, hfields⟩ := SharedConfig.exists_reader_eq
    show SharedConfig.reader maxDepth (.object members' close) = .ok v
    have h' : SharedConfig.reader maxDepth (.object members close) = .ok v := h
    rw [hreader] at h' ⊢
    exact record_of_unknown .sharedConfig hnames (by decide) hfields hadded hperm h'

/-- **What a newer server may make of an answer**: its members and those inside are rearranged, the
direction of a transaction is written under another name, and members that the client does not know
are added at the top, in any place. -/
inductive Revises (k : ResponseKind) (d : Doc) : Doc → Prop
  | intro {rearranged : Doc} {members added members' : List (Doc × Doc)}
    (horder : Rearranges d rearranged) (hspelling : k.Respells rearranged (.object members none))
    (hadded : ∀ m ∈ added, k.IsUnknown m) (hperm : (members ++ added).Perm members') :
    Revises k d (.object members' none)

/-- **A revised answer is read as the answer before.** -/
theorem read_of_revises (k : ResponseKind) {d d' : Doc} {v : k.Value} (hd : d.HasDistinctKeys)
    (hd' : k.Revises d d') (h : k.reader maxDepth d = .ok v) : k.reader maxDepth d' = .ok v := by
  obtain ⟨horder, hspelling, hadded, hperm⟩ := hd'
  have hrearranged := k.respects_reader.reads ⟨hd, horder⟩ h
  have hrespelled := k.respects_respells.reads hspelling hrearranged
  exact k.read_of_added hadded hperm hrespelled

end ResponseKind

/-! ### Fields that stand twice -/

theorem Model.refusesShapes_fields {guarded : String} :
    All (fun _ name r => name ≠ guarded → r.RefusesShapes) Model.fields :=
  ((((All.pure Model.mk).and fun _ => Reader.refusesShapes_metadata.optional).and
    fun _ => (Reader.refusesShapes_parsed _ _).optional).and
    fun _ => (Reader.refusesShapes_parsed _ _).optional).and
    fun _ => (Reader.refusesShapes_parsed _ _).optional

/-- All fields of a transaction but the direction refuse shapes. -/
theorem Transaction.refusesShapes_ownFields :
    All (fun _ name r => name ≠ "direction" → r.RefusesShapes) Transaction.ownFields := by
  open Reader in
  exact (((((((((((((((All.pure _).and fun _ => refusesShapes_string).and
    fun _ => refusesShapes_string).and fun _ => refusesShapes_string.list).and
    fun _ => refusesShapes_string.list).and fun _ => refusesShapes_string).and
    fun _ => refusesShapes_u64).and fun _ => refusesShapes_u64).and
    fun _ => refusesShapes_u32).and fun _ => refusesShapes_u32).and
    fun _ => refusesShapes_string).and fun _ => refusesShapes_u64).and
    fun _ => refusesShapes_i64).and fun _ => refusesShapes_i64.sortedMap).and
    fun _ => refusesShapes_string).and fun hname => absurd rfl hname

/-- All fields of a draft but the configuration refuse shapes. -/
theorem DraftTransaction.refusesShapes_ownFields :
    All (fun _ name r => name ≠ "configuration" → r.RefusesShapes) DraftTransaction.ownFields := by
  open Reader in
  exact (((((((All.pure _).and fun _ => refusesShapes_string).and
    fun _ => refusesShapes_string).and fun _ => refusesShapes_string).and
    fun _ => (refusesShapes_parsed _ _).optional).and fun hname => absurd rfl hname).and
    fun _ => refusesShapes_string).and fun _ => refusesShapes_string

namespace RecordKind

variable {k : RecordKind} {members : List (Doc × Doc)} {s t : String}

/-- The fields of a record, its own and the common ones. -/
def table (k : RecordKind) : List (List String × Reader Unit) :=
  k.ownFields.table ++ Model.fields.table

/-- The name of a field that is told in messages. -/
def toldName (s : String) : String := if s ∈ directionNames then "direction" else s

/-- The one field that may refuse a JSON value as if it were none: a direction that is neither a
text nor an object, and a configuration that is written as too long an array. -/
def guarded : RecordKind → String
  | .transaction => "direction"
  | .draftTransaction => "configuration"

/-- The field with a name reads a document. -/
def Reads (k : RecordKind) (s : String) (d : Doc) : Prop :=
  ∃ entry ∈ k.table, s ∈ entry.1 ∧ entry.2 (maxDepth - 1) d = .ok ()

/-- The field with a name refuses a document. -/
def Refuses (k : RecordKind) (s : String) (d : Doc) (e : ReadError) : Prop :=
  ∃ entry ∈ k.table, s ∈ entry.1 ∧ entry.2 (maxDepth - 1) d = .error e

theorem nodup_table (k : RecordKind) : (k.table.flatMap Prod.fst).Nodup := by
  rw [table, List.flatMap_append]
  exact List.nodup_append_comm.mp k.nodup_names

/-- Names of one field are entered together. -/
theorem SameField.exists_entry (h : k.SameField s t) :
    ∃ entry ∈ k.table, s ∈ entry.1 ∧ t ∈ entry.1 := by
  obtain ⟨hs, -, heq | ⟨hdirection, ht⟩⟩ := h
  · subst heq
    rw [wireNames_eq, Fields.names, Fields.names, ← List.flatMap_append] at hs
    obtain ⟨entry, hentry, hs⟩ := List.mem_flatMap.mp hs
    exact ⟨entry, hentry, hs, hs⟩
  · cases k with
    | transaction =>
      have hentry := (of_fieldOf_eq_some (fieldOf_direction hdirection .null)).1
      exact ⟨_, List.mem_append_left _ hentry, hdirection, ht⟩
    | draftTransaction =>
      have hapart : ∀ u ∈ directionNames, u ∉ RecordKind.draftTransaction.wireNames := by decide
      exact absurd hs (hapart s hdirection)

theorem headD_eq_toldName {entry : List String × Reader Unit} (hentry : entry ∈ k.table)
    (hs : s ∈ entry.1) : entry.1.headD "" = toldName s := by
  have hall : ∀ k : RecordKind, ∀ names ∈ k.table.map Prod.fst, ∀ u ∈ names,
      names.headD "" = toldName u := by
    intro k
    cases k with
    | transaction => decide
    | draftTransaction => decide
  exact hall k _ (List.mem_map_of_mem hentry) s hs

/-- All fields but the guarded one refuse shapes. -/
theorem refusesShapes_of_ne_guarded {entry : List String × Reader Unit} (hentry : entry ∈ k.table)
    (hname : entry.1.headD "" ≠ k.guarded) : entry.2.RefusesShapes := by
  rcases List.mem_append.mp hentry with hentry | hentry
  · cases k with
    | transaction => exact Transaction.refusesShapes_ownFields.refusesShapes entry hentry hname
    | draftTransaction =>
      exact DraftTransaction.refusesShapes_ownFields.refusesShapes entry hentry hname
  · exact Model.refusesShapes_fields.refusesShapes entry hentry hname

/-- **A field that stands twice is never read.** The record is refused for the shape of what was
written, or else its guarded field refuses a value. -/
theorem reader_of_twice {d d' : Doc} (hvalues : AreValues (maxDepth - 1) members)
    (hsame : k.SameField s t)
    (htwice : List.Sublist [(.string s, d), (.string t, d')] members) :
    ∃ e, k.reader maxDepth (.object members none) = .error e ∧ ((∃ m, e = .mismatch m) ∨
      ∃ u c, (.string u, c) ∈ members ∧ toldName u = k.guarded ∧ k.Refuses u c e) := by
  obtain ⟨entry, hentry, hs, ht⟩ := hsame.exists_entry
  obtain ⟨name, hreader⟩ := k.exists_reader_eq
  cases hread : k.reader maxDepth (.object members none) with
  | ok a =>
    rw [hreader] at hread
    exact absurd hread (recordWith_ne_ok_of_twice k.nodup_names hentry hs ht htwice)
  | error e =>
    refine ⟨e, rfl, ?_⟩
    rw [hreader] at hread
    have hblames := recordWith_eq_error k.respects_ownFields Model.respects_fields rfl hvalues hread
    rcases hblames with hmismatch | ⟨other, hother, u, c, hm, hu, hrefuses⟩
    · exact .inl hmismatch
    · by_cases hguarded : other.1.headD "" = k.guarded
      · rw [headD_eq_toldName hother hu] at hguarded
        exact .inr ⟨u, c, hm, hguarded, other, hother, hu, hrefuses⟩
      · obtain ⟨-, v, hv⟩ := hvalues _ hm
        exact .inl ((refusesShapes_of_ne_guarded hother hguarded).mismatch hv hrefuses)

/-- **The error names the field that stands twice**, where nothing else is wrong. -/
theorem reader_of_inserted {pre post : List (Doc × Doc)} {d d' : Doc} {a : k.Record} {v : Value}
    (h : k.reader maxDepth (.object (pre ++ post) none) = .ok a) (hsame : k.SameField s t)
    (hthere : (.string t, d') ∈ pre ++ post) (hvalue : Reader.value (maxDepth - 1) d = .ok v)
    (hreads : k.Reads s d) :
    k.reader maxDepth (.object (pre ++ (.string s, d) :: post) none) =
      .error (.mismatch (.duplicateField (toldName s))) := by
  obtain ⟨entry, hentry, hs, ht⟩ := hsame.exists_entry
  obtain ⟨other, hother, hs', hread⟩ := hreads
  -- No two fields have a name in common, so that the one that reads is the one that stands there.
  have hknown := (fieldOf_eq_some_iff k.nodup_table hentry (d := d)).mpr hs
  rw [(fieldOf_eq_some_iff k.nodup_table hother).mpr hs'] at hknown
  obtain rfl := Option.some.inj hknown
  obtain ⟨name, hreader⟩ := k.exists_reader_eq
  rw [hreader] at h ⊢
  rw [recordWith_eq_duplicateField k.respects_ownFields k.nodup_names rfl h hentry ht hthere hs
    hvalue hread, headD_eq_toldName hentry hs]

end RecordKind

/-! ### Texts -/

theorem read_eq_of_ofBytes {α : Type} {r : Reader α} {text : Bytes} {d : Doc}
    (h : Doc.ofBytes text = (d, none)) : Json.read r text = r maxDepth d := by
  rw [Json.read, h]
  show (r maxDepth d >>= fun a => atEnd none >>= fun _ => pure a) = r maxDepth d
  cases r maxDepth d with
  | ok a => rfl
  | error e => rfl

/-- **What a newer server may change in its answers, and what not.** An answer in which no object
has a key twice is read as before when its members and those inside are rearranged, the direction of
transactions is written under another name, and members that the client does not know are added. A
record in which a field stands twice is never read: the error is a mismatch, unless the guarded
field refuses the value of one of its members before. And where a second member with a readable
value is put into a record that was read, wherever it stands, the error tells that its field is
there twice. -/
theorem tolerated_and_refused_changes :
    (∀ (k : ResponseKind) (text text' : Bytes) (d d' : Doc) (v : k.Value),
      Doc.ofBytes text = (d, none) → d.HasDistinctKeys → Json.read k.reader text = .ok v →
      Doc.ofBytes text' = (d', none) → k.Revises d d' → Json.read k.reader text' = .ok v) ∧
    (∀ (k : RecordKind) (text : Bytes) (members : List (Doc × Doc)) (s t : String) (d d' : Doc),
      Doc.ofBytes text = (.object members none, none) → AreValues (maxDepth - 1) members →
      k.SameField s t → List.Sublist [(.string s, d), (.string t, d')] members →
      ∃ e, Json.read k.reader text = .error e ∧ ((∃ m, e = .mismatch m) ∨
        ∃ u c, (.string u, c) ∈ members ∧ RecordKind.toldName u = k.guarded ∧ k.Refuses u c e)) ∧
    (∀ (k : RecordKind) (text text' : Bytes) (pre post : List (Doc × Doc)) (s t : String)
      (d d' : Doc) (a : k.Record) (v : Value),
      Doc.ofBytes text = (.object (pre ++ post) none, none) → Json.read k.reader text = .ok a →
      k.SameField s t → (.string t, d') ∈ pre ++ post → Reader.value (maxDepth - 1) d = .ok v →
      k.Reads s d →
      Doc.ofBytes text' = (.object (pre ++ (.string s, d) :: post) none, none) →
      Json.read k.reader text' =
        .error (.mismatch (.duplicateField (RecordKind.toldName s)))) := by
  refine ⟨?_, ?_, ?_⟩
  · intro k text text' d d' v hd hdistinct hread hd' hrevises
    rw [read_eq_of_ofBytes hd] at hread
    rw [read_eq_of_ofBytes hd']
    exact k.read_of_revises hdistinct hrevises hread
  · intro k text members s t d d' htext hvalues hsame htwice
    rw [read_eq_of_ofBytes htext]
    exact RecordKind.reader_of_twice hvalues hsame htwice
  · intro k text text' pre post s t d d' a v htext hread hsame hthere hvalue hreads htext'
    rw [read_eq_of_ofBytes htext] at hread
    rw [read_eq_of_ofBytes htext']
    exact RecordKind.reader_of_inserted hread hsame hthere hvalue hreads

/-- Free-form data with two members. -/
def note : List (String × Json.Value) := [("a", .bool true), ("b", .null)]

/-- A transaction with a direction and free-form data. -/
def answer : List (String × Json.Value) :=
  [("id", .string "x"), ("direction", .string "incoming"), ("metadata", .object note)]

/-- The same transaction from a newer server, the other way round and with one more member. -/
def newerAnswer : List (String × Json.Value) :=
  [("version", .array [.string "3"]), ("metadata", .object note.reverse),
    ("transactionDirection", .string "incoming"), ("id", .string "x")]

/-- The transaction with a direction once more, in front and under the other name. -/
def twiceDirected : List (String × Json.Value) :=
  ("transactionDirection", .string "outgoing") :: answer

theorem isWhole_note : (Json.Value.object note).IsWhole :=
  .object (List.forall_mem_cons.mpr ⟨.bool true, List.forall_mem_singleton.mpr .null⟩)

theorem ofBytes_answers :
    Doc.ofBytes (Client.bodyOf (.object answer)) = (Doc.ofValue (.object answer), none) ∧
      Doc.ofBytes (Client.bodyOf (.object newerAnswer)) =
        (Doc.ofValue (.object newerAnswer), none) ∧
      Doc.ofBytes (Client.bodyOf (.object twiceDirected)) =
        (Doc.ofValue (.object twiceDirected), none) := by
  have hreverse : (Json.Value.object note.reverse).IsWhole :=
    .object (List.forall_mem_cons.mpr ⟨.null, List.forall_mem_singleton.mpr (.bool true)⟩)
  have hanswer : ∀ e ∈ answer, e.2.IsWhole :=
    List.forall_mem_cons.mpr ⟨.string _, List.forall_mem_cons.mpr ⟨.string _,
      List.forall_mem_singleton.mpr isWhole_note⟩⟩
  refine ⟨Doc.ofBytes_bodyOf (.object hanswer), Doc.ofBytes_bodyOf (.object ?_),
    Doc.ofBytes_bodyOf (.object (List.forall_mem_cons.mpr ⟨.string _, hanswer⟩))⟩
  exact List.forall_mem_cons.mpr ⟨.array (List.forall_mem_singleton.mpr (.string _)),
    List.forall_mem_cons.mpr ⟨hreverse, List.forall_mem_cons.mpr ⟨.string _,
      List.forall_mem_singleton.mpr (.string _)⟩⟩⟩

theorem hasDistinctKeys_answer : (Doc.ofValue (.object answer)).HasDistinctKeys := by
  have hkeys : ∀ {l : List String}, l.Nodup → (l.map Doc.string).Nodup := fun h =>
    h.map fun _ _ heq => Doc.string.inj heq
  refine .object (hkeys (l := ["id", "direction", "metadata"]) (by decide)) ?_
  refine List.forall_mem_cons.mpr ⟨.leaf trivial, List.forall_mem_cons.mpr ⟨.leaf trivial,
    List.forall_mem_singleton.mpr (.object (hkeys (l := ["a", "b"]) (by decide)) ?_)⟩⟩
  exact List.forall_mem_cons.mpr ⟨.leaf trivial, List.forall_mem_singleton.mpr (.leaf trivial)⟩

/-- The newer server rearranged the free-form data, spelt the direction its other way, added a
version and turned everything round. -/
theorem revises_newerAnswer :
    (ResponseKind.record .transaction).Revises (Doc.ofValue (.object answer))
      (Doc.ofValue (.object newerAnswer)) := by
  have hnote : Reorders (Doc.ofValue (.object note)) (Doc.ofValue (.object note.reverse)) :=
    .members (List.Perm.swap (Doc.string "b", Doc.null) (Doc.string "a", Doc.bool true) []) none
  have horder : Rearranges (Doc.ofValue (.object answer))
      (.object [(.string "id", .string "x"), (.string "direction", .string "incoming"),
        (.string "metadata", Doc.ofValue (.object note.reverse))] none) :=
    .single (.value (.string "metadata")
      [(.string "id", .string "x"), (.string "direction", .string "incoming")] [] none hnote)
  have hspelling : (ResponseKind.record .transaction).Respells
      (.object [(.string "id", .string "x"), (.string "direction", .string "incoming"),
        (.string "metadata", Doc.ofValue (.object note.reverse))] none)
      (.object [(.string "id", .string "x"), (.string "transactionDirection", .string "incoming"),
        (.string "metadata", Doc.ofValue (.object note.reverse))] none) := by
    refine .object (.cons ⟨rfl, .inl rfl⟩ (.cons ⟨rfl, .inr ?_⟩ (.cons ⟨rfl, .inl rfl⟩ .nil)))
    exact ⟨"direction", by decide, "transactionDirection", by decide, rfl, rfl⟩
  have hadded : ∀ m ∈ [(Doc.string "version", Doc.array [.string "3"] none)],
      (ResponseKind.record .transaction).IsUnknown m :=
    List.forall_mem_singleton.mpr ⟨"version", rfl, by decide, .array [.string "3"], rfl⟩
  exact .intro horder hspelling hadded (List.reverse_perm _).symm

/-- The newer server's answer is read as the old one; and the transaction is not read with a second
direction, which is told under the first of its names. -/
theorem tolerated_and_refused_changes_newerAnswer :
    ∃ t : Transaction,
      Json.read Transaction.reader (Client.bodyOf (.object answer)) = .ok t ∧
      Json.read Transaction.reader (Client.bodyOf (.object newerAnswer)) = .ok t ∧
      (∃ e, Json.read Transaction.reader (Client.bodyOf (.object twiceDirected)) = .error e) ∧
      Json.read Transaction.reader (Client.bodyOf (.object twiceDirected)) =
        .error (.mismatch (.duplicateField "direction")) := by
  obtain ⟨hrevised, htwice, hinserted⟩ := tolerated_and_refused_changes
  obtain ⟨hanswer, hnewer, htwiceDirected⟩ := ofBytes_answers
  obtain ⟨t, ht⟩ : ∃ t, Transaction.reader maxDepth (Doc.ofValue (.object answer)) = .ok t :=
    ⟨_, rfl⟩
  have hread : Json.read Transaction.reader (Client.bodyOf (.object answer)) = .ok t := by
    rw [read_eq_of_ofBytes hanswer, ht]
  refine ⟨t, hread, ?_, ?_, ?_⟩
  · exact hrevised (.record .transaction) _ _ _ _ t hanswer hasDistinctKeys_answer hread hnewer
      revises_newerAnswer
  · have hvalues : AreValues (maxDepth - 1) (Doc.ofMembers twiceDirected) := by
      have hobject : ∃ v, Reader.value (maxDepth - 1) (Doc.ofValue (.object note)) = .ok v :=
        ⟨_, rfl⟩
      refine List.forall_mem_cons.mpr ⟨⟨⟨_, rfl⟩, _, rfl⟩, List.forall_mem_cons.mpr
        ⟨⟨⟨_, rfl⟩, _, rfl⟩, List.forall_mem_cons.mpr ⟨⟨⟨_, rfl⟩, _, rfl⟩, ?_⟩⟩⟩
      exact List.forall_mem_singleton.mpr ⟨⟨_, rfl⟩, hobject⟩
    have hsub : List.Sublist [(Doc.string "transactionDirection", Doc.string "outgoing"),
        (Doc.string "direction", Doc.string "incoming")] (Doc.ofMembers twiceDirected) :=
      .cons_cons _ (.cons _ (.cons_cons _ (List.nil_sublist _)))
    obtain ⟨e, he, -⟩ := htwice .transaction _ _ "transactionDirection" "direction" _ _
      htwiceDirected hvalues ⟨by decide, by decide, .inr ⟨by decide, by decide⟩⟩ hsub
    exact ⟨e, he⟩
  · have hreads : RecordKind.transaction.Reads "transactionDirection" (.string "outgoing") :=
      ⟨_, List.mem_append_left _ (List.mem_append_right _ List.mem_cons_self), by decide, rfl⟩
    exact hinserted .transaction _ _ [] (Doc.ofMembers answer) "transactionDirection" "direction"
      _ _ t _ hanswer hread ⟨by decide, by decide, .inr ⟨by decide, by decide⟩⟩
      (List.mem_cons_of_mem _ List.mem_cons_self) rfl hreads htwiceDirected

/-- A transaction that is written with its direction only. -/
def directed : List (String × Json.Value) :=
  [("id", .string "x"), ("direction", .string "incoming")]

/-- The transaction with a direction in front that is a number. -/
def misdirected : List (String × Json.Value) :=
  [("id", .string "x"), ("direction", .nat 5), ("direction", .string "incoming")]

/-- **A direction that stands twice without a mismatch**: the first one is a number, which the field
refuses as no JSON before it meets the second one. -/
theorem misdirected_malformed :
    Client.bodyOf (.object misdirected) =
        Utf8.encode "\x7b\"id\":\"x\",\"direction\":5,\"direction\":\"incoming\"\x7d".toList ∧
      (∃ t, Json.read Transaction.reader (Client.bodyOf (.object directed)) = .ok t) ∧
      Doc.ofBytes (Client.bodyOf (.object misdirected)) =
        (.object [(.string "id", .string "x"), (.string "direction", .number (.integer 5)),
          (.string "direction", .string "incoming")] none, none) ∧
      RecordKind.transaction.SameField "direction" "direction" ∧
      ¬ ∃ m, Json.read Transaction.reader (Client.bodyOf (.object misdirected)) =
        .error (.mismatch m) := by
  have hdirected : Doc.ofBytes (Client.bodyOf (.object directed)) =
      (Doc.ofValue (.object directed), none) :=
    Doc.ofBytes_bodyOf (.object (List.forall_mem_cons.mpr ⟨.string _,
      List.forall_mem_singleton.mpr (.string _)⟩))
  have hmisdirected : Doc.ofBytes (Client.bodyOf (.object misdirected)) =
      (Doc.ofValue (.object misdirected), none) :=
    Doc.ofBytes_bodyOf (.object (List.forall_mem_cons.mpr ⟨.string _, List.forall_mem_cons.mpr
      ⟨.integer (by decide) (by decide), List.forall_mem_singleton.mpr (.string _)⟩⟩))
  have hread : Json.read Transaction.reader (Client.bodyOf (.object misdirected)) =
      .error (.fault .malformed) := by
    rw [read_eq_of_ofBytes hmisdirected]
    rfl
  refine ⟨by decide +kernel, ?_, hmisdirected, ⟨by decide, by decide, .inl rfl⟩, ?_⟩
  · rw [read_eq_of_ofBytes hdirected]
    exact ⟨_, rfl⟩
  · rintro ⟨m, hm⟩
    cases hread.symm.trans hm

end WalletApi
