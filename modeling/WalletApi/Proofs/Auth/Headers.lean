import WalletApi.Auth.Headers
import WalletApi.Proofs.Auth.Payload

/-!
# Authentication headers are written all or not at all

A call computes its headers before it writes the first one. So a call that fails leaves the map as
it was, and a call that succeeds leaves one value for each header of its mode, all of them from what
that one call has computed (`WalletApi.Authenticator.write_run`,
`WalletApi.Authenticator.isWritten_of_write`). The values of other names are never touched.

Over a run of calls on one map this is an invariant: the headers of the mode are those of the last
call that succeeded, or the ones the map came with (`WalletApi.Authenticator.runAll_frame`).
-/

namespace WalletApi

/-! ### Several headers at once -/

namespace HeaderMap

/-- One value for each of the names. -/
def insertAll (h : HeaderMap) (fields : List (String × String)) : HeaderMap :=
  fields.foldl (fun h f => h.insert f.1 f.2) h

theorem insertAll_cons (h : HeaderMap) (f : String × String) (fields : List (String × String)) :
    h.insertAll (f :: fields) = (h.insert f.1 f.2).insertAll fields := rfl

theorem values_insertAll_of_notMem {fields : List (String × String)} {name : String}
    (h : name ∉ fields.map Prod.fst) (map : HeaderMap) :
    (map.insertAll fields).values name = map.values name := by
  induction fields generalizing map with
  | nil => rfl
  | cons f fields ih =>
    rw [List.map_cons, List.mem_cons, not_or] at h
    rw [insertAll_cons, ih h.2, values_insert_of_ne _ _ (Ne.symm h.1)]

theorem values_insertAll_of_mem {fields : List (String × String)} {f : String × String}
    (hnodup : (fields.map Prod.fst).Nodup) (h : f ∈ fields) (map : HeaderMap) :
    (map.insertAll fields).values f.1 = [f.2] := by
  induction fields generalizing map with
  | nil => exact absurd h List.not_mem_nil
  | cons g fields ih =>
    rw [List.map_cons, List.nodup_cons] at hnodup
    rw [insertAll_cons]
    rcases List.mem_cons.mp h with rfl | hmem
    · rw [values_insertAll_of_notMem hnodup.1, values_insert_self]
    · exact ih hnodup.2 hmem _

/-- Names that a map does not have are added at its end. -/
theorem entries_insertAll {fields : List (String × String)} {map : HeaderMap}
    (hnodup : (fields.map Prod.fst).Nodup)
    (hfresh : ∀ name ∈ fields.map Prod.fst, name ∉ map.entries.map Prod.fst) :
    (map.insertAll fields).entries = map.entries ++ fields := by
  induction fields generalizing map with
  | nil => exact (List.append_nil _).symm
  | cons f fields ih =>
    rw [List.map_cons, List.nodup_cons] at hnodup
    rw [List.map_cons, List.forall_mem_cons] at hfresh
    -- A fresh name replaces nothing, so its entry goes to the end.
    have hfilter : map.entries.filter (fun e => e.1 != f.1) = map.entries := by
      refine List.filter_eq_self.mpr fun e he => bne_iff_ne.mpr fun heq => hfresh.1 ?_
      exact heq ▸ List.mem_map_of_mem he
    have hinsert : (map.insert f.1 f.2).entries = map.entries ++ [f] := by
      rw [insert, hfilter]
    rw [insertAll_cons, ih hnodup.2, hinsert, List.append_assoc, List.singleton_append]
    intro name hname
    rw [hinsert, List.map_append, List.mem_append, List.map_singleton, List.mem_singleton]
    rintro (hold | rfl)
    · exact hfresh.2 name hname hold
    · exact hnodup.1 hname

end HeaderMap

/-! ### Authenticators of credentials -/

namespace Authenticator

variable {text : String} {a : Authenticator}

theorem ofCredential_accessKey (h : ofCredential (some (.accessKey text)) = .ok a) :
    ∃ key, SecretKey.read text = .ok key ∧ a = .accessKey key := by
  obtain ⟨key, hkey, rfl⟩ := map_eq_ok.mp h
  exact ⟨key, hkey, rfl⟩

theorem ofCredential_xpriv (h : ofCredential (some (.xpriv text)) = .ok a) :
    ∃ key, Xpriv.ofText text = .ok key ∧ a = .extendedKey key := by
  rw [ofCredential] at h
  cases hkey : Xpriv.ofText text with
  | error fault =>
    rw [hkey] at h
    exact nomatch h
  | ok key =>
    rw [hkey] at h
    exact ⟨key, rfl, (Except.ok.inj h).symm⟩

theorem ofCredential_xpub (h : ofCredential (some (.xpub text)) = .ok a) :
    ∃ key, Xpub.ofText text = .ok key ∧ a = .publicKeyOnly key := by
  rw [ofCredential] at h
  cases hkey : Xpub.ofText text with
  | error fault =>
    rw [hkey] at h
    exact nomatch h
  | ok key =>
    rw [hkey] at h
    exact ⟨key, rfl, (Except.ok.inj h).symm⟩

end Authenticator

/-! ### The headers of a call -/

theorem checkHeader_eq_ok {f g : String × String} (h : checkHeader f = .ok g) : g = f := by
  rw [checkHeader] at h
  split at h
  · exact (Except.ok.inj h).symm
  · exact absurd h (by simp)

/-- Headers that pass the check are left as they are. -/
theorem mapM_checkHeader_eq_ok {fields checked : List (String × String)}
    (h : fields.mapM checkHeader = .ok checked) : checked = fields := by
  induction fields generalizing checked with
  | nil => exact (Except.ok.inj h).symm
  | cons f fields ih =>
    rw [List.mapM_cons, bind_eq_ok] at h
    obtain ⟨g, hg, h⟩ := h
    obtain ⟨rest, hrest, h⟩ := bind_eq_ok.mp h
    obtain rfl := Except.ok.inj h
    rw [checkHeader_eq_ok hg, ih hrest]

/-- The mode signs requests. -/
def AuthMode.signs : AuthMode → Bool
  | .noAuth => false
  | .publicKeyOnly => false
  | .signedWithDerivedKey => true
  | .signedWithAccessKey => true

/-- **What a call writes**: nothing, the public key that it only names, or the headers of the one
payload that it has built. -/
inductive Authenticator.Issues : Authenticator → Bytes → Moment → List (String × String) → Prop
  | noAuth {body : Bytes} {moment : Moment} : Issues .noAuth body moment []
  | publicKeyOnly {key : Xpub} {body : Bytes} {moment : Moment} :
    Issues (.publicKeyOnly key) body moment [(xpubHeader, key.text)]
  | accessKey {key : SecretKey} {body : Bytes} {moment : Moment} {p : AuthPayload}
    (h : AuthPayload.forAccessKey key body moment = .ok p) :
    Issues (.accessKey key) body moment p.headers
  | extendedKey {master : Xpriv} {body : Bytes} {moment : Moment} {p : AuthPayload}
    (h : AuthPayload.forXpriv master body moment = .ok p) :
    Issues (.extendedKey master) body moment p.headers

namespace Authenticator

variable {a : Authenticator} {body : Bytes} {moment : Moment}

theorem issues_of_fields {fields : List (String × String)} (h : a.fields body moment = .ok fields) :
    a.Issues body moment fields := by
  cases a with
  | noAuth =>
    obtain rfl := Except.ok.inj h
    exact .noAuth
  | publicKeyOnly key =>
    obtain rfl := mapM_checkHeader_eq_ok h
    exact .publicKeyOnly
  | accessKey key =>
    obtain ⟨p, hp, h⟩ := bind_eq_ok.mp h
    obtain rfl := mapM_checkHeader_eq_ok h
    exact .accessKey (mapError_eq_ok.mp hp)
  | extendedKey key =>
    obtain ⟨p, hp, h⟩ := bind_eq_ok.mp h
    obtain rfl := mapM_checkHeader_eq_ok h
    exact .extendedKey (mapError_eq_ok.mp hp)

/-- A call writes the headers of its mode. -/
theorem Issues.names {fields : List (String × String)} (h : a.Issues body moment fields) :
    fields.map Prod.fst = a.mode.headerNames := by
  cases h with
  | noAuth => rfl
  | publicKeyOnly => rfl
  | accessKey hp =>
    obtain ⟨bytes, σ, -, -, rfl⟩ := AuthPayload.forAccessKey_eq_ok.mp hp
    rfl
  | extendedKey hp =>
    obtain ⟨bytes, child, σ, -, -, -, rfl⟩ := AuthPayload.forXpriv_eq_ok.mp hp
    rfl

/-- A call of a signing mode writes the digest of its body. -/
theorem Issues.hash_mem {fields : List (String × String)} (h : a.Issues body moment fields)
    (hsigns : a.mode.signs = true) : (hashHeader, hashBody body) ∈ fields := by
  cases h with
  | noAuth => exact nomatch hsigns
  | publicKeyOnly => exact nomatch hsigns
  | accessKey hp =>
    obtain ⟨bytes, σ, -, -, rfl⟩ := AuthPayload.forAccessKey_eq_ok.mp hp
    exact List.mem_cons_of_mem _ List.mem_cons_self
  | extendedKey hp =>
    obtain ⟨bytes, child, σ, -, -, -, rfl⟩ := AuthPayload.forXpriv_eq_ok.mp hp
    exact List.mem_cons_of_mem _ List.mem_cons_self

theorem nodup_headerNames (mode : AuthMode) : mode.headerNames.Nodup := by
  cases mode <;> decide

/-! ### One call -/

theorem forM_insert (fields : List (String × String)) (h : HeaderMap) :
    (fields.forM fun f => modify fun h => h.insert f.1 f.2 :
      ExceptT AuthError (StateM HeaderMap) Unit).run h = (.ok (), h.insertAll fields) := by
  induction fields generalizing h with
  | nil => rfl
  | cons f fields ih => exact ih (h.insert f.1 f.2)

/-- **What a call does to a map**: nothing where its headers cannot be computed, and else it writes
all of them. -/
theorem write_run (a : Authenticator) (body : Bytes) (moment : Moment) (h : HeaderMap) :
    (a.write body moment).run h =
      match a.fields body moment with
      | .error e => (.error (.append a.mode e), h)
      | .ok fields => (.ok (), h.insertAll fields) := by
  rw [write]
  cases a.fields body moment with
  | error e => rfl
  | ok fields => exact forM_insert fields h

theorem write_eq_ok {h h' : HeaderMap} :
    (a.write body moment).run h = (.ok (), h') ↔
      ∃ fields, a.fields body moment = .ok fields ∧ h.insertAll fields = h' := by
  rw [write_run]
  cases a.fields body moment with
  | error e =>
    exact ⟨fun hw => (nomatch (Prod.ext_iff.mp hw).1), fun ⟨_, hf, _⟩ => nomatch hf⟩
  | ok fields =>
    refine ⟨fun hw => ⟨fields, rfl, (Prod.ext_iff.mp hw).2⟩, ?_⟩
    rintro ⟨_, hf, rfl⟩
    obtain rfl := Except.ok.inj hf
    rfl

/-- A map after a call over the map before: one value for each header of the mode, all of them of
what this call has issued, and the values of all other names as they were. -/
def IsWritten (a : Authenticator) (body : Bytes) (moment : Moment) (before after : HeaderMap) :
    Prop :=
  ∃ fields, a.Issues body moment fields ∧ fields.map Prod.fst = a.mode.headerNames ∧
    (∀ f ∈ fields, after.values f.1 = [f.2]) ∧
    ∀ name ∉ a.mode.headerNames, after.values name = before.values name

/-- **A call that fails leaves the map as it was.** -/
theorem eq_of_write_error {h h' : HeaderMap} {e : AuthError}
    (hw : (a.write body moment).run h = (.error e, h')) : h' = h := by
  rw [write_run] at hw
  cases hf : a.fields body moment with
  | error fault =>
    rw [hf] at hw
    exact (Prod.ext_iff.mp hw).2.symm
  | ok fields =>
    rw [hf] at hw
    exact absurd (Prod.ext_iff.mp hw).1 (by simp)

/-- **A call that succeeds writes the headers of its mode and no others.** -/
theorem isWritten_of_write {h h' : HeaderMap}
    (hw : (a.write body moment).run h = (.ok (), h')) : a.IsWritten body moment h h' := by
  obtain ⟨fields, hf, rfl⟩ := write_eq_ok.mp hw
  have hissues := issues_of_fields hf
  have hnames := hissues.names
  have hnodup : (fields.map Prod.fst).Nodup := hnames ▸ nodup_headerNames a.mode
  exact ⟨fields, hissues, hnames,
    fun f hf => HeaderMap.values_insertAll_of_mem hnodup hf h,
    fun name hname => HeaderMap.values_insertAll_of_notMem (hnames ▸ hname) h⟩

/-- The map with the headers of authentication is the one that the call leaves. -/
theorem append_eq_ok_iff_write {h h' : HeaderMap} :
    a.append h body moment = .ok h' ↔ (a.write body moment).run h = (.ok (), h') := by
  rw [append]
  cases (a.write body moment).run h with
  | mk result map =>
    cases result with
    | error e => exact ⟨fun happ => (nomatch happ), fun hw => nomatch (Prod.ext_iff.mp hw).1⟩
    | ok u =>
      refine ⟨fun happ => ?_, fun hw => ?_⟩
      · obtain rfl := Except.ok.inj happ
        rfl
      · exact congrArg Except.ok (Prod.ext_iff.mp hw).2

theorem isWritten_of_append {h h' : HeaderMap} (happ : a.append h body moment = .ok h') :
    a.IsWritten body moment h h' := isWritten_of_write (append_eq_ok_iff_write.mp happ)

/-! ### A run of calls on one map -/

/-- The results of calls one after the other on the same map, and the map at the end. -/
def runAll (a : Authenticator) :
    List (Bytes × Moment) → HeaderMap → List (Except AuthError Unit) × HeaderMap
  | [], h => ([], h)
  | (body, moment) :: calls, h =>
    let (result, h) := (a.write body moment).run h
    let (results, h) := a.runAll calls h
    (result :: results, h)

theorem runAll_cons (call : Bytes × Moment) (calls : List (Bytes × Moment)) (h : HeaderMap) :
    a.runAll (call :: calls) h =
      (((a.write call.1 call.2).run h).1 :: (a.runAll calls ((a.write call.1 call.2).run h).2).1,
        (a.runAll calls ((a.write call.1 call.2).run h).2).2) := rfl

/-- One call never touches a name that is not of its mode, whether it succeeds or fails. -/
theorem values_write {name : String} (hname : name ∉ a.mode.headerNames) (body : Bytes)
    (moment : Moment) (h : HeaderMap) :
    ((a.write body moment).run h).2.values name = h.values name := by
  cases hw : (a.write body moment).run h with
  | mk result h' =>
    cases result with
    | error e => rw [eq_of_write_error hw]
    | ok _ =>
      obtain ⟨fields, -, -, -, hothers⟩ := isWritten_of_write hw
      exact hothers name hname

theorem values_runAll {name : String} (hname : name ∉ a.mode.headerNames)
    (calls : List (Bytes × Moment)) (h : HeaderMap) :
    (a.runAll calls h).2.values name = h.values name := by
  induction calls generalizing h with
  | nil => rfl
  | cons call calls ih =>
    rw [runAll_cons]
    exact (ih _).trans (values_write hname call.1 call.2 h)

/-- Either no call of a run succeeds and the map is the one that the run began with, or the map is
the one that the last successful call has left. -/
theorem runAll_last (a : Authenticator) (calls : List (Bytes × Moment)) (h : HeaderMap) :
    (∀ result ∈ (a.runAll calls h).1, result.isOk = false) ∧ (a.runAll calls h).2 = h ∨
      ∃ before body moment after, calls = before ++ (body, moment) :: after ∧
        (a.write body moment).run (a.runAll before h).2 = (.ok (), (a.runAll calls h).2) ∧
        ∀ result ∈ (a.runAll after (a.runAll calls h).2).1, result.isOk = false := by
  -- Induction from the first call on: it decides only where all the later ones fail.
  induction calls generalizing h with
  | nil => exact .inl ⟨fun _ hmem => absurd hmem List.not_mem_nil, rfl⟩
  | cons call calls ih =>
    obtain ⟨body, moment⟩ := call
    rw [runAll_cons]
    rcases ih ((a.write body moment).run h).2 with
      ⟨hfail, hsame⟩ | ⟨before, body', moment', after, hcalls, hwrite, hfail⟩
    · cases hw : (a.write body moment).run h with
      | mk result h₁ =>
        rw [hw] at hfail hsame
        cases result with
        | error e =>
          refine .inl ⟨fun result hmem => ?_, hsame.trans (eq_of_write_error hw)⟩
          rcases List.mem_cons.mp hmem with rfl | hmem
          · rfl
          · exact hfail result hmem
        | ok _ =>
          refine .inr ⟨[], body, moment, calls, rfl, ?_, ?_⟩
          · rw [hsame]
            exact hw
          · rw [hsame]
            exact hfail
    · -- A later call decides, whatever the first one has done.
      refine .inr ⟨(body, moment) :: before, body', moment', after, ?_, hwrite, hfail⟩
      rw [hcalls, List.cons_append]

/-- **Appending never mixes or half-writes headers.** A call that fails leaves the map as it was; a
call that succeeds leaves one value for each header of its mode, all of its own; and after a run of
any calls on one map the headers of the mode are as at the beginning, if no call has succeeded, or
those of the last one that has, while the values of all other names are as at the beginning. -/
theorem runAll_frame (a : Authenticator) (calls : List (Bytes × Moment)) (h : HeaderMap) :
    (∀ body moment before e after,
      (a.write body moment).run before = (.error e, after) → after = before) ∧
    (∀ body moment before after,
      (a.write body moment).run before = (.ok (), after) →
        a.IsWritten body moment before after) ∧
    (∀ name ∉ a.mode.headerNames, (a.runAll calls h).2.values name = h.values name) ∧
    ((∀ result ∈ (a.runAll calls h).1, result.isOk = false) ∧ (a.runAll calls h).2 = h ∨
      ∃ before body moment after, calls = before ++ (body, moment) :: after ∧
        (a.write body moment).run (a.runAll before h).2 = (.ok (), (a.runAll calls h).2) ∧
        (∀ result ∈ (a.runAll after (a.runAll calls h).2).1, result.isOk = false) ∧
        a.IsWritten body moment h (a.runAll calls h).2) := by
  refine ⟨fun _ _ _ _ _ => eq_of_write_error, fun _ _ _ _ => isWritten_of_write,
    fun name hname => values_runAll hname calls h, ?_⟩
  rcases a.runAll_last calls h with hnone | ⟨before, body, moment, after, hcalls, hwrite, hfail⟩
  · exact .inl hnone
  · obtain ⟨fields, hissues, hnames, hvalues, -⟩ := isWritten_of_write hwrite
    exact .inr ⟨before, body, moment, after, hcalls, hwrite, hfail, fields, hissues, hnames,
      hvalues, fun name hname => values_runAll hname calls h⟩

end Authenticator

end WalletApi
