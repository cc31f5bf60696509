import WalletApi.Proofs.Json.Records

/-!
# What a response is taken for

The status of a response alone decides whether its body is read as a value or as a report of an
error, and only the statuses from 400 to 599 tell of one: those below, but also those from 600 on,
which a server may send all the same, belong to responses whose body is read as a value
(`WalletApi.Client.result_decode`). A report is any object: its code and its message may be missing,
and whatever else it holds is passed over, however deep it nests
(`WalletApi.ReportedError.read_object`).
-/

namespace WalletApi

open Json Json.Fields

/-! ### Values that are passed over -/

theorem Json.Doc.skipItems_eq_none {l : List Value}
    (h : ∀ v ∈ l, Doc.skipFault (Doc.ofValue v) = none) :
    Doc.skipItems (Doc.ofItems l) none = none := by
  induction l with
  | nil => rfl
  | cons v l ih =>
    rw [Doc.ofItems, Doc.skipItems, h v List.mem_cons_self]
    exact ih fun w hw => h w (List.mem_cons_of_mem v hw)

theorem Json.Doc.skipMembers_eq_none {l : List (String × Value)}
    (h : ∀ e ∈ l, Doc.skipFault (Doc.ofValue e.2) = none) :
    Doc.skipMembers (Doc.ofMembers l) none = none := by
  induction l with
  | nil => rfl
  | cons e l ih =>
    rw [Doc.ofMembers, Doc.skipMembers]
    simp only [h e List.mem_cons_self]
    exact ih fun w hw => h w (List.mem_cons_of_mem e hw)

/-- A written value can be passed over, however deep it nests. -/
theorem Json.Doc.skipFault_ofValue {v : Value} (h : v.IsWhole) :
    Doc.skipFault (Doc.ofValue v) = none := by
  induction h with
  | null => rfl
  | bool b => rfl
  | string s => rfl
  | integer hlow hhigh => rfl
  | array h ih =>
    rw [Doc.ofValue, Doc.skipFault]
    exact Doc.skipItems_eq_none ih
  | object h ih =>
    rw [Doc.ofValue, Doc.skipFault]
    exact Doc.skipMembers_eq_none ih

/-! ### Reported errors -/

namespace ReportedError

variable {l : List (String × Value)}

/-- The text that an object holds for a key; no text where it holds none. -/
def textOf (l : List (String × Value)) (name : String) : String :=
  match l.lookup name with
  | some (.string s) => s
  | _ => ""

/-- The members that report an error are texts. -/
def HasTexts (l : List (String × Value)) : Prop :=
  ∀ e ∈ l, e.1 = "code" ∨ e.1 = "message" → ∃ s, e.2 = .string s

/-- The fields of a report, as they are checked. -/
def table : List (List String × Reader Unit) :=
  [(["code"], fun depth d => (Reader.string depth d).map fun _ => ()),
    (["message"], fun depth d => (Reader.string depth d).map fun _ => ())]

theorem check_table (hwhole : ∀ e ∈ l, e.2.IsWhole) (hnodup : (l.map Prod.fst).Nodup)
    (htexts : HasTexts l) (seen : List String) (hseen : ∀ e ∈ l, e.1 ∉ seen) (depth : ℕ) :
    check table passedOver depth seen (Doc.ofMembers l) = .ok () := by
  induction l generalizing seen with
  | nil => rfl
  | cons e l ih =>
    obtain ⟨name, v⟩ := e
    obtain ⟨hname, hnodup⟩ := List.nodup_cons.mp hnodup
    have ih' := ih (fun x hx => hwhole x (List.mem_cons_of_mem _ hx)) hnodup
      fun x hx => htexts x (List.mem_cons_of_mem _ hx)
    have hseen' : ∀ x ∈ l, x.1 ∉ name :: seen := by
      intro x hx hmem
      rcases List.mem_cons.mp hmem with heq | hmem
      · exact hname (List.mem_map.mpr ⟨x, hx, heq⟩)
      · exact hseen x (List.mem_cons_of_mem _ hx) hmem
    by_cases hknown : name = "code" ∨ name = "message"
    · obtain ⟨s, hs⟩ := htexts (name, v) List.mem_cons_self hknown
      obtain rfl : v = .string s := hs
      have hfind : table.find? (fun entry => entry.1.contains name) =
          some ([name], fun depth d => (Reader.string depth d).map fun _ => ()) := by
        rcases hknown with rfl | rfl <;> rfl
      rw [Doc.ofMembers, check_of_known hfind (hseen _ List.mem_cons_self) rfl]
      exact ih' _ hseen'
    · have hforeign : name ∉ table.flatMap Prod.fst := by
        simpa [table] using hknown
      have hpass : passedOver depth (Doc.ofValue v) = .ok () := by
        rw [passedOver, Doc.skipFault_ofValue (hwhole (name, v) List.mem_cons_self), atEnd]
      rw [← List.singleton_append, check_of_unknown (List.forall_mem_singleton.mpr hforeign)
        (List.forall_mem_singleton.mpr hpass)]
      exact ih' seen fun x hx => hseen x (List.mem_cons_of_mem _ hx)

theorem find?_eq_lookup (l : List (String × Value)) (name : String) :
    (l.map docMember).find? (fun m => [name].contains m.1) =
      (l.lookup name).map fun v => (name, Doc.ofValue v) := by
  induction l with
  | nil => rfl
  | cons e l ih =>
    obtain ⟨k, v⟩ := e
    rw [List.map_cons, List.lookup_cons]
    by_cases hname : name = k
    · subst hname
      rw [beq_self_eq_true]
      exact List.find?_cons_of_pos (List.contains_iff_mem.mpr List.mem_cons_self)
    · rw [beq_eq_false_iff_ne.mpr hname, List.find?_cons_of_neg, ih]
      rw [docMember, List.contains_iff_mem, List.mem_singleton]
      exact Ne.symm hname

theorem pick_text (name : String) (h : ∀ v, (name, v) ∈ l → ∃ s, v = .string s) (depth : ℕ) :
    (withDefault name Reader.string "").pick depth (Doc.named (Doc.ofMembers l)) =
      .ok (textOf l name) := by
  rw [withDefault, field, named_ofMembers, textOf]
  simp only [find?_eq_lookup]
  cases hlookup : l.lookup name with
  | none => rfl
  | some v =>
    obtain ⟨pre, post, rfl, -⟩ := List.lookup_eq_some_iff.mp hlookup
    obtain ⟨s, rfl⟩ := h v (List.mem_append_right _ List.mem_cons_self)
    rfl

/-- **Every object whose code and message are texts, or missing, reports an error**, whatever else
it holds. -/
theorem read_object (hwhole : ∀ e ∈ l, e.2.IsWhole) (hnodup : (l.map Prod.fst).Nodup)
    (htexts : HasTexts l) : Json.read reader (Client.bodyOf (.object l)) =
      .ok ⟨textOf l "code", textOf l "message"⟩ := by
  have hcode := pick_text (l := l) "code" (fun v hv => htexts _ hv (.inl rfl)) 126
  have hmessage := pick_text (l := l) "message" (fun v hv => htexts _ hv (.inr rfl)) 126
  have hcheck := check_table hwhole hnodup htexts [] (fun _ _ => List.not_mem_nil) 126
  have hread : reader maxDepth (Doc.ofValue (.object l)) =
      .ok ⟨textOf l "code", textOf l "message"⟩ := by
    have henter : Reader.enter maxDepth = .ok 126 := rfl
    rw [Doc.ofValue, reader, record, henter, ok_bind]
    show (check table passedOver 126 [] (Doc.ofMembers l) >>= _) = _
    rw [hcheck, ok_bind, atEnd, ok_bind]
    simp only [Fields.and, seq, Fields.pure, hcode, hmessage, ok_bind]
    rfl
  rw [Json.read, Doc.ofBytes_bodyOf (.object hwhole)]
  show (reader maxDepth (Doc.ofValue (.object l)) >>= _) = _
  rw [hread]
  rfl

end ReportedError

/-! ### Responses -/

namespace Client

variable {α : Type}

theorem isError_iff {status : ℕ} : Status.isError status = true ↔ 400 ≤ status ∧ status < 600 := by
  rw [Status.isError, Bool.and_eq_true, decide_eq_true_eq, decide_eq_true_eq]

/-- A response with an error status is taken for the error that its body reports. -/
theorem result_decode_of_isError {response : Response}
    (h : 400 ≤ response.status ∧ response.status < 600) (r : Reader α) :
    (decode r response).result = .error (.ofResponse response.status response.body) := by
  rw [decode, if_pos (isError_iff.mpr h)]

/-- The body of any other response is read as a value. -/
theorem result_decode_of_not_isError {response : Response}
    (h : ¬ (400 ≤ response.status ∧ response.status < 600)) (r : Reader α) :
    (decode r response).result = (Json.read r response.body).mapError ClientError.reading := by
  rw [decode, if_neg (mt isError_iff.mp h)]

theorem ofResponse_of_ok {body : Bytes} {report : ReportedError}
    (h : Json.read ReportedError.reader body = .ok report) (status : ℕ) :
    ClientError.ofResponse status body = .api status report.code report.message := by
  rw [ClientError.ofResponse, h]

theorem ofResponse_of_error {body : Bytes} {f : ReadError}
    (h : Json.read ReportedError.reader body = .error f) (status : ℕ) :
    ClientError.ofResponse status body = .invalidResponse status f := by
  rw [ClientError.ofResponse, h]

/-- **A response is taken for an error exactly if its status is one from 400 to 599.** Then it is an
error of the server with the code and the message that the body reports, where both may be missing,
or an invalid response where the body reports none; in no other way does a response come to be one
of these. With any other status the body is the value or cannot be read. -/
theorem result_decode (r : Reader α) (response : Response) :
    (400 ≤ response.status ∧ response.status < 600 →
      (∃ report, Json.read ReportedError.reader response.body = .ok report ∧
        (decode r response).result =
          .error (.api response.status report.code report.message)) ∨
      ∃ f, Json.read ReportedError.reader response.body = .error f ∧
        (decode r response).result = .error (.invalidResponse response.status f)) ∧
    (400 ≤ response.status ∧ response.status < 600 → ∀ l, response.body = bodyOf (.object l) →
      (∀ e ∈ l, e.2.IsWhole) → (l.map Prod.fst).Nodup → ReportedError.HasTexts l →
      (decode r response).result = .error (.api response.status
        (ReportedError.textOf l "code") (ReportedError.textOf l "message"))) ∧
    (¬ (400 ≤ response.status ∧ response.status < 600) →
      (∃ a, Json.read r response.body = .ok a ∧ (decode r response).result = .ok a) ∨
      ∃ f, Json.read r response.body = .error f ∧
        (decode r response).result = .error (.reading f)) := by
  refine ⟨fun h => ?_, fun h l hbody hwhole hnodup htexts => ?_, fun h => ?_⟩
  · rw [result_decode_of_isError h]
    cases hread : Json.read ReportedError.reader response.body with
    | ok report => exact .inl ⟨report, rfl, by rw [ofResponse_of_ok hread]⟩
    | error f => exact .inr ⟨f, rfl, by rw [ofResponse_of_error hread]⟩
  · have hread := ReportedError.read_object hwhole hnodup htexts
    rw [← hbody] at hread
    rw [result_decode_of_isError h, ofResponse_of_ok hread]
  · rw [result_decode_of_not_isError h]
    cases Json.read r response.body with
    | ok a => exact .inl ⟨a, rfl, rfl⟩
    | error f => exact .inr ⟨f, rfl, rfl⟩

/-- A report with a detail that nobody asks for, and without a code. -/
def detailedReport : List (String × Value) :=
  [("detail", .array [.number (.integer 1)]), ("message", .string "no such transaction")]

/-- The server tells that it does not know a transaction. -/
theorem result_decode_detailedReport :
    (∀ e ∈ detailedReport, e.2.IsWhole) ∧ ReportedError.HasTexts detailedReport ∧
      (decode SharedConfig.reader ⟨404, bodyOf (.object detailedReport)⟩).result =
        .error (.api 404 "" "no such transaction") := by
  have hwhole : ∀ e ∈ detailedReport, e.2.IsWhole :=
    List.forall_mem_cons.mpr
      ⟨.array (List.forall_mem_singleton.mpr (.integer (by decide) (by decide))),
        List.forall_mem_singleton.mpr (.string _)⟩
  have htexts : ReportedError.HasTexts detailedReport :=
    List.forall_mem_cons.mpr
      ⟨fun h => absurd h (by decide), List.forall_mem_singleton.mpr fun _ => ⟨_, rfl⟩⟩
  obtain ⟨-, hreport, -⟩ :=
    result_decode SharedConfig.reader ⟨404, bodyOf (.object detailedReport)⟩
  exact ⟨hwhole, htexts, hreport ⟨by decide, by decide⟩ _ rfl hwhole (by decide) htexts⟩

/-- A server may send the status 600, and its response is read as a value. -/
theorem result_decode_unregistered :
    ¬ ∀ response : Response, 400 ≤ response.status → response.status ≤ 999 →
      ∃ e, (decode SharedConfig.reader response).result = .error e := by
  intro h
  obtain ⟨e, he⟩ := h ⟨600, bodyOf (.object [])⟩ (by decide) (by decide)
  have hvalue : (decode SharedConfig.reader ⟨600, bodyOf (.object [])⟩).result =
      .ok SharedConfig.default := rfl
  exact nomatch hvalue.symm.trans he

end Client

end WalletApi
