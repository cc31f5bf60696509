import WalletApi.Proofs.Calendar.Timestamps
import WalletApi.Proofs.Json.Records
import WalletApi.Wallet.Reading
import WalletApi.Wallet.Writing

/-!
# Records survive being written and read

Every wallet record is read back as it was from the bytes that it is written as. The types of the
records leave some values that no program holds: a number beyond the width of its field, a date that
no calendar has, an object of free-form data that is not sorted. For each record a structure tells
what is asked of its values (`WalletApi.Transaction.IsWellFormed` and the others), and then the
fields are gone through in order, each with what it is written as. A field that is left out because
it is missing or empty is one whose default is that very value, and the fields that all kept records
have in common share no name with a record's own ones (`WalletApi.roundTrip_records`).
-/

namespace WalletApi

open Json Json.Fields

/-! ### What is asked of the values -/

/-- **Free-form data that a program holds**: its numbers are whole and fit sixty-four bits, and all
its objects are sorted by key. -/
def Json.Metadata.IsExact (m : Metadata) : Prop :=
  ∀ e ∈ m.entries, e.2.IsWhole ∧ e.2.IsSorted

/-- A point in time that some text writes. -/
def Timestamp.IsRead (t : Timestamp) : Prop := ∃ s, Timestamp.ofText s = .ok t

/-- The common fields hold dates that are read from texts and free-form data. -/
structure Model.IsWellFormed (m : Model) : Prop where
  metadata : ∀ d, m.metadata = some d → d.IsExact
  createdAt : ∀ t, m.createdAt = some t → t.IsRead
  updatedAt : ∀ t, m.updatedAt = some t → t.IsRead
  deletedAt : ∀ t, m.deletedAt = some t → t.IsRead

/-- The numbers of a transaction fit their fields. -/
structure Transaction.IsWellFormed (t : Transaction) : Prop where
  model : t.model.IsWellFormed
  blockHeight : t.blockHeight ≤ Number.unsignedMax
  fee : t.fee ≤ Number.unsignedMax
  numberOfInputs : t.numberOfInputs ≤ 0xffffffff
  numberOfOutputs : t.numberOfOutputs ≤ 0xffffffff
  totalValue : t.totalValue ≤ Number.unsignedMax
  outputValue : -0x8000000000000000 ≤ t.outputValue ∧ t.outputValue ≤ 0x7fffffffffffffff
  outputs : ∀ e ∈ t.outputs.entries, -0x8000000000000000 ≤ e.2 ∧ e.2 ≤ 0x7fffffffffffffff

/-- The number of an output fits its field. -/
structure TransactionOutput.IsWellFormed (o : TransactionOutput) : Prop where
  satoshis : o.satoshis ≤ Number.unsignedMax

/-- The numbers of a configuration fit their fields. -/
structure TransactionConfig.IsWellFormed (c : TransactionConfig) : Prop where
  changeMinimumSatoshis : c.changeMinimumSatoshis ≤ Number.unsignedMax
  changeNumberOfDestinations : c.changeNumberOfDestinations ≤ 0xffffffff
  changeSatoshis : c.changeSatoshis ≤ Number.unsignedMax
  expiresIn : c.expiresIn ≤ Number.unsignedMax
  fee : c.fee ≤ Number.unsignedMax
  outputs : ∀ o ∈ c.outputs, o.IsWellFormed

/-- A draft holds a date that is read from a text and a configuration whose numbers fit. -/
structure DraftTransaction.IsWellFormed (d : DraftTransaction) : Prop where
  model : d.model.IsWellFormed
  expiresAt : ∀ t, d.expiresAt = some t → t.IsRead
  configuration : d.configuration.IsWellFormed

/-- The numbers of a page fit their fields. -/
structure PageDescription.IsWellFormed (p : PageDescription) : Prop where
  size : p.size ≤ 0xffffffff
  number : p.number ≤ 0xffffffff
  totalElements : p.totalElements ≤ Number.unsignedMax
  totalPages : p.totalPages ≤ 0xffffffff

/-- The entries of a page and its numbers are what is asked of them. -/
structure PageModel.IsWellFormed {α : Type} (entry : α → Prop) (p : PageModel α) : Prop where
  content : ∀ a ∈ p.content, entry a
  page : p.page.IsWellFormed

/-- A request for a draft holds a configuration whose numbers fit and free-form data. -/
structure DraftTransactionRequest.IsWellFormed (r : DraftTransactionRequest) : Prop where
  config : r.config.IsWellFormed
  metadata : r.metadata.IsExact

/-! ### Fields -/

section Fields

variable {α : Type} {r : Reader α}

/-- A text that is left out when it is empty, which is also what a missing one stands for. -/
theorem Json.Fields.FieldWrites.text (name s : String) :
    FieldWrites [name] (some "") Reader.string (memberIfText name s) s := by
  rw [memberIfText]
  split
  · next h => exact .omitted (congrArg some h.symm)
  · exact .single (restores_string s)

/-- A value that is left out when it is missing. -/
theorem Json.Fields.FieldWrites.optional {f : α → Value} {name : String} {others : List String}
    {o : Option α} (hrestores : ∀ a, o = some a → Restores r (f a) a) (hnull : ∀ a, f a ≠ .null) :
    FieldWrites (name :: others) (some none) (Reader.optional r) (memberIfSome name f o) o := by
  cases o with
  | none => exact .omitted rfl
  | some a => exact .member List.mem_cons_self ((hrestores a rfl).optional (hnull a))

theorem Timestamp.restores {t : Timestamp} (h : t.IsRead) :
    Restores Timestamp.reader t.toValue t := by
  obtain ⟨s, hs⟩ := h
  refine ⟨.string _, fun {depth} _ => ?_⟩
  rw [Timestamp.toValue, Doc.ofValue, Timestamp.reader, Reader.parsed]
  simp only [Timestamp.ofText_text (Timestamp.isValid_of_ofText hs), mapError_ok]

/-- A date that may be missing. -/
theorem Json.Fields.FieldWrites.timestamp {name : String} {o : Option Timestamp}
    (h : ∀ t, o = some t → t.IsRead) :
    FieldWrites [name] (some none) (Reader.optional Timestamp.reader)
      (memberIfSome name Timestamp.toValue o) o :=
  .optional (fun t ht => Timestamp.restores (h t ht)) fun _ => nofun

theorem Json.Metadata.restores {m : Metadata} (h : m.IsExact) :
    Restores Reader.metadata (.metadata m) m :=
  restores_metadata fun e he => restores_value (h e he).1 (h e he).2

/-- A choice is restored from its own name. -/
theorem restores_choice {known : List (String × α)} {other : Option α} {name : String} {a : α}
    (h : known.lookup name = some a) : Restores (Reader.choice known other) (.string name) a := by
  refine ⟨.string name, fun {depth} _ => ?_⟩
  simp only [Doc.ofValue, Reader.choice, Reader.choice.select, h]

theorem restores_strings (l : List String) : Restores (Reader.list .string) (.strings l) l :=
  restores_list fun s _ => restores_string s

end Fields

/-! ### Records -/

theorem TransactionDirection.restores (d : TransactionDirection) :
    Restores TransactionDirection.reader d.toValue d := by
  cases d <;> exact restores_choice rfl

theorem SortDirection.restores (d : SortDirection) :
    Restores SortDirection.reader d.toValue d := by
  cases d <;> exact restores_choice rfl

theorem Model.writes {m : Model} (h : m.IsWellFormed) : Writes Model.fields m.members m :=
  ((((Writes.pure Model.mk).and
    (.optional (f := Value.metadata) (fun d hd => Metadata.restores (h.metadata d hd))
      fun _ => nofun)).and
    (.timestamp h.createdAt)).and (.timestamp h.updatedAt)).and (.timestamp h.deletedAt)

theorem Model.restores {m : Model} (h : m.IsWellFormed) : Restores Model.reader m.toValue m :=
  restores_record (Model.writes h) (by decide) rfl _

theorem TransactionOutput.restores {o : TransactionOutput} (h : o.IsWellFormed) :
    Restores TransactionOutput.reader o.toValue o := by
  refine restores_record ?_ (by decide) rfl _
  exact ((((Writes.pure TransactionOutput.mk).and (.text "to" o.recipient)).and
    (.single (restores_u64 h.satoshis))).and (.text "script" o.script)).and
    (.single (restores_bool _))

theorem PageDescription.restores {p : PageDescription} (h : p.IsWellFormed) :
    Restores PageDescription.reader p.toValue p := by
  refine restores_record ?_ (by decide) rfl _
  exact ((((Writes.pure PageDescription.mk).and (.single (restores_u32 h.size))).and
    (.single (restores_u32 h.number))).and (.single (restores_u64 h.totalElements))).and
    (.single (restores_u32 h.totalPages))

theorem SharedConfig.restores (c : SharedConfig) : Restores SharedConfig.reader c.toValue c := by
  refine restores_record ?_ (by decide) rfl _
  exact ((Writes.pure SharedConfig.mk).and (.single (restores_strings _))).and
    (.single (restores_map fun e _ => restores_bool e.2))

theorem PageModel.restores {α : Type} {r : Reader α} {f : α → Value} {entry : α → Prop}
    (hentry : ∀ a, entry a → Restores r (f a) a) {p : PageModel α} (h : p.IsWellFormed entry) :
    Restores (PageModel.reader r) (p.toValue f) p := by
  refine restores_record ?_ ?_ rfl _
  · exact ((Writes.pure PageModel.mk).and
      (.single (restores_list fun a ha => hentry a (h.content a ha)))).and
      (.single (PageDescription.restores h.page))
  · show ["content", "page"].Nodup
    decide

theorem TransactionConfig.restores {c : TransactionConfig} (h : c.IsWellFormed) :
    Restores TransactionConfig.reader c.toValue c := by
  refine restores_record (l := ?l) ?hwrites (by decide) ?hmembers _
  case hwrites =>
    exact (((((((Writes.pure TransactionConfig.mk).and (.text _ c.changeStrategy)).and
      (.single (restores_u64 h.changeMinimumSatoshis))).and
      (.single (restores_u32 h.changeNumberOfDestinations))).and
      (.single (restores_u64 h.changeSatoshis))).and (.single (restores_u64 h.expiresIn))).and
      (.single (restores_u64 h.fee))).and
      (.single (restores_list fun o ho => TransactionOutput.restores (h.outputs o ho)))
  case hmembers =>
    simp only [List.append_assoc]
    rfl

theorem DraftTransactionRequest.restores {r : DraftTransactionRequest} (h : r.IsWellFormed) :
    Restores DraftTransactionRequest.reader r.toValue r := by
  refine restores_record ?_ (by decide) rfl _
  exact ((Writes.pure DraftTransactionRequest.mk).and
    (.single (TransactionConfig.restores h.config))).and (.single (Metadata.restores h.metadata))

theorem RecordTransactionRequest.restores {r : RecordTransactionRequest}
    (h : r.metadata.IsExact) : Restores RecordTransactionRequest.reader r.toValue r := by
  refine restores_record ?_ (by decide) rfl _
  exact (((Writes.pure RecordTransactionRequest.mk).and (.single (Metadata.restores h))).and
    (.single (restores_string _))).and (.single (restores_string _))

/-- A request to change metadata does not tell which transaction it is for. -/
theorem UpdateTransactionMetadataRequest.restores {r : UpdateTransactionMetadataRequest}
    (h : r.metadata.IsExact) :
    Restores UpdateTransactionMetadataRequest.reader r.toValue { r with id := "" } := by
  refine restores_record ?_ (by decide) rfl _
  exact (Writes.pure (UpdateTransactionMetadataRequest.mk "")).and
    (.single (Metadata.restores h))

/-! ### Kept records -/

/-- A transaction is written as its common fields and then its own. -/
theorem Transaction.exists_writes {t : Transaction} (h : t.IsWellFormed) :
    ∃ l, Writes Transaction.ownFields l (fun model => { t with model := model }) ∧
      t.toValue = .object (t.model.members ++ l) := by
  refine ⟨_, (((((((((((((((Writes.pure _).and (.single (restores_string t.id))).and
      (.single (restores_string t.hex))).and (.single (restores_strings t.xpubInIds))).and
      (.single (restores_strings t.xpubOutIds))).and (.single (restores_string t.blockHash))).and
      (.single (restores_u64 h.blockHeight))).and (.single (restores_u64 h.fee))).and
      (.single (restores_u32 h.numberOfInputs))).and
      (.single (restores_u32 h.numberOfOutputs))).and (.single (restores_string t.draftId))).and
      (.single (restores_u64 h.totalValue))).and
      (.single (restores_i64 h.outputValue.1 h.outputValue.2))).and
      (.single (restores_map fun e he => restores_i64 (h.outputs e he).1 (h.outputs e he).2))).and
      (.single (restores_string t.status))).and
      (.optional (fun d _ => TransactionDirection.restores d) fun _ => nofun), ?_⟩
  rw [Transaction.toValue]
  simp only [List.append_assoc]
  rfl

/-- A draft is written as its common fields and then its own. -/
theorem DraftTransaction.exists_writes {d : DraftTransaction} (h : d.IsWellFormed) :
    ∃ l, Writes DraftTransaction.ownFields l (fun model => { d with model := model }) ∧
      d.toValue = .object (d.model.members ++ l) := by
  refine ⟨_, (((((((Writes.pure _).and (.single (restores_string d.id))).and
      (.single (restores_string d.hex))).and (.single (restores_string d.xpubId))).and
      (.timestamp h.expiresAt)).and (.single (TransactionConfig.restores h.configuration))).and
      (.single (restores_string d.status))).and (.text _ d.finalTxId), ?_⟩
  rw [DraftTransaction.toValue]
  simp only [List.append_assoc]
  rfl

/-- The names of a transaction's own fields are none of the common ones. -/
theorem Transaction.nodup_names : (Model.fields.names ++ Transaction.ownFields.names).Nodup := by
  decide

/-- The names of a draft's own fields are none of the common ones. -/
theorem DraftTransaction.nodup_names :
    (Model.fields.names ++ DraftTransaction.ownFields.names).Nodup := by
  decide

theorem Transaction.restores {t : Transaction} (h : t.IsWellFormed) :
    Restores Transaction.reader t.toValue t := by
  obtain ⟨l, hown, hvalue⟩ := exists_writes h
  rw [hvalue]
  exact restores_recordWith hown (Model.writes h.model) nodup_names _

theorem DraftTransaction.restores {d : DraftTransaction} (h : d.IsWellFormed) :
    Restores DraftTransaction.reader d.toValue d := by
  obtain ⟨l, hown, hvalue⟩ := exists_writes h
  rw [hvalue]
  exact restores_recordWith hown (Model.writes h.model) nodup_names _

/-- No key stands twice in a transaction. -/
theorem Transaction.exists_nodup_keys {t : Transaction} (h : t.IsWellFormed) :
    ∃ members, t.toValue = .object members ∧ (members.map Prod.fst).Nodup := by
  obtain ⟨l, hown, hvalue⟩ := exists_writes h
  exact ⟨_, hvalue, hown.nodup_keys_append (Model.writes h.model) nodup_names⟩

/-- No key stands twice in a draft. -/
theorem DraftTransaction.exists_nodup_keys {d : DraftTransaction} (h : d.IsWellFormed) :
    ∃ members, d.toValue = .object members ∧ (members.map Prod.fst).Nodup := by
  obtain ⟨l, hown, hvalue⟩ := exists_writes h
  exact ⟨_, hvalue, hown.nodup_keys_append (Model.writes h.model) nodup_names⟩

/-! ### Every record -/

/-- **The values of a kind survive** being written and read, where their texts do not nest deeper
than is read. -/
def RoundTrips {α : Type} (r : Reader α) (f : α → Value) (kind : α → Prop) : Prop :=
  ∀ a, kind a → (f a).nesting ≤ maxDepth → Json.read r (Client.bodyOf (f a)) = .ok a

theorem roundTrips_of_restores {α : Type} {r : Reader α} {f : α → Value} {kind : α → Prop}
    (h : ∀ a, kind a → Restores r (f a) a) : RoundTrips r f kind :=
  fun a ha hdepth => (h a ha).read_bodyOf hdepth

/-- A direction that has another name is unknown. -/
theorem TransactionDirection.restores_unknown {name : String}
    (h : name ∉ ["incoming", "outgoing", "reconcile"]) :
    Restores TransactionDirection.reader (.string name) .unknown := by
  simp only [List.mem_cons, List.not_mem_nil, or_false, not_or] at h
  obtain ⟨hincoming, houtgoing, hreconcile⟩ := h
  refine ⟨.string name, fun {depth} _ => ?_⟩
  by_cases hunknown : name = "unknown"
  · subst hunknown
    rfl
  · simp only [Doc.ofValue, TransactionDirection.reader, Reader.choice, Reader.choice.select,
      List.lookup_cons, List.lookup_nil, beq_eq_false_iff_ne.mpr hincoming,
      beq_eq_false_iff_ne.mpr houtgoing, beq_eq_false_iff_ne.mpr hreconcile,
      beq_eq_false_iff_ne.mpr hunknown]

/-- **Wallet records survive being written and read.** Each is read back as it was; only a request
to change metadata comes back without the name of its transaction, which is not written. No key of
the common fields of a transaction or a draft is one of its own, and a direction with a name of its
own is read as the unknown one. -/
theorem roundTrip_records :
    RoundTrips Model.reader Model.toValue Model.IsWellFormed ∧
    RoundTrips Transaction.reader Transaction.toValue Transaction.IsWellFormed ∧
    RoundTrips TransactionOutput.reader TransactionOutput.toValue
      TransactionOutput.IsWellFormed ∧
    RoundTrips TransactionConfig.reader TransactionConfig.toValue
      TransactionConfig.IsWellFormed ∧
    RoundTrips DraftTransaction.reader DraftTransaction.toValue DraftTransaction.IsWellFormed ∧
    RoundTrips SharedConfig.reader SharedConfig.toValue (fun _ => True) ∧
    RoundTrips PageDescription.reader PageDescription.toValue PageDescription.IsWellFormed ∧
    RoundTrips (PageModel.reader Transaction.reader) (PageModel.toValue Transaction.toValue)
      (PageModel.IsWellFormed Transaction.IsWellFormed) ∧
    RoundTrips (PageModel.reader DraftTransaction.reader)
      (PageModel.toValue DraftTransaction.toValue)
      (PageModel.IsWellFormed DraftTransaction.IsWellFormed) ∧
    RoundTrips DraftTransactionRequest.reader DraftTransactionRequest.toValue
      DraftTransactionRequest.IsWellFormed ∧
    RoundTrips RecordTransactionRequest.reader RecordTransactionRequest.toValue
      (fun r => r.metadata.IsExact) ∧
    RoundTrips TransactionDirection.reader TransactionDirection.toValue (fun _ => True) ∧
    RoundTrips SortDirection.reader SortDirection.toValue (fun _ => True) ∧
    (∀ r : UpdateTransactionMetadataRequest, r.metadata.IsExact →
      r.toValue.nesting ≤ maxDepth →
      Json.read UpdateTransactionMetadataRequest.reader (Client.bodyOf r.toValue) =
        .ok { r with id := "" }) ∧
    (∀ t : Transaction, t.IsWellFormed →
      ∃ members, t.toValue = .object members ∧ (members.map Prod.fst).Nodup) ∧
    (∀ d : DraftTransaction, d.IsWellFormed →
      ∃ members, d.toValue = .object members ∧ (members.map Prod.fst).Nodup) ∧
    ∀ name, name ∉ ["incoming", "outgoing", "reconcile"] →
      Json.read TransactionDirection.reader (Client.bodyOf (.string name)) = .ok .unknown :=
  ⟨roundTrips_of_restores fun _ => Model.restores,
    roundTrips_of_restores fun _ => Transaction.restores,
    roundTrips_of_restores fun _ => TransactionOutput.restores,
    roundTrips_of_restores fun _ => TransactionConfig.restores,
    roundTrips_of_restores fun _ => DraftTransaction.restores,
    roundTrips_of_restores fun c _ => SharedConfig.restores c,
    roundTrips_of_restores fun _ => PageDescription.restores,
    roundTrips_of_restores fun _ => PageModel.restores fun _ => Transaction.restores,
    roundTrips_of_restores fun _ => PageModel.restores fun _ => DraftTransaction.restores,
    roundTrips_of_restores fun _ => DraftTransactionRequest.restores,
    roundTrips_of_restores fun _ => RecordTransactionRequest.restores,
    roundTrips_of_restores fun d _ => TransactionDirection.restores d,
    roundTrips_of_restores fun d _ => SortDirection.restores d,
    fun _ h hdepth => (UpdateTransactionMetadataRequest.restores h).read_bodyOf hdepth,
    fun _ => Transaction.exists_nodup_keys,
    fun _ => DraftTransaction.exists_nodup_keys,
    fun _ h => (TransactionDirection.restores_unknown h).read_bodyOf (Nat.zero_le _)⟩

/-- An object with a text that needs escapes and a negative number. -/
def nestedNote : Value := .object [("text", .string "\"\n"), ("value", .number (.integer (-1)))]

/-- A transaction with free-form data, a date and an unknown direction. -/
def Transaction.withNote : Transaction where
  model := ⟨some ⟨[("note", nestedNote)], by decide⟩, some ⟨⟨2024, 2, 29⟩, 23, 59, 60, 5000⟩,
    none, none⟩
  id := "t1"
  hex := ""
  xpubInIds := ["x"]
  xpubOutIds := []
  blockHash := ""
  blockHeight := 0xffffffffffffffff
  fee := 1
  numberOfInputs := 1
  numberOfOutputs := 0
  draftId := ""
  totalValue := 0
  outputValue := -0x8000000000000000
  outputs := ⟨[("x", -1)], by decide⟩
  status := ""
  direction := some .unknown

theorem nestedNote_isWhole_isSorted : nestedNote.IsWhole ∧ nestedNote.IsSorted := by
  constructor
  · refine .object (List.forall_mem_cons.mpr ⟨.string _, List.forall_mem_cons.mpr ⟨?_, ?_⟩⟩)
    · exact .integer (by decide) (by decide)
    · exact List.forall_mem_nil _
  · refine .object (by decide)
      (List.forall_mem_cons.mpr ⟨.string _, List.forall_mem_cons.mpr ⟨.number _, ?_⟩⟩)
    exact List.forall_mem_nil _

theorem Transaction.isWellFormed_withNote : withNote.IsWellFormed where
  model :=
    { metadata := by
        intro d hd e he
        obtain rfl := Option.some.inj hd
        rw [List.mem_singleton.mp he]
        exact nestedNote_isWhole_isSorted
      createdAt := by
        intro t ht
        obtain rfl := Option.some.inj ht
        exact ⟨_, Timestamp.ofText_text ⟨by decide, by decide, by decide, by decide, by decide⟩⟩
      updatedAt := nofun
      deletedAt := nofun }
  blockHeight := by decide
  fee := by decide
  numberOfInputs := by decide
  numberOfOutputs := by decide
  totalValue := by decide
  outputValue := by decide
  outputs := by decide

/-- The transaction is read back with its note, its inserted second and its unknown direction. -/
theorem roundTrip_records_withNote :
    Transaction.withNote.IsWellFormed ∧ Transaction.withNote.toValue.nesting ≤ maxDepth ∧
      Json.read Transaction.reader (Client.bodyOf Transaction.withNote.toValue) =
        .ok Transaction.withNote := by
  have hdepth : Transaction.withNote.toValue.nesting ≤ maxDepth := by decide
  obtain ⟨-, htransaction, -⟩ := roundTrip_records
  exact ⟨Transaction.isWellFormed_withNote, hdepth,
    htransaction _ Transaction.isWellFormed_withNote hdepth⟩

end WalletApi
