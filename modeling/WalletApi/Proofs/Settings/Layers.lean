import WalletApi.Proofs.Lists
import WalletApi.Proofs.Settings.Fields
import WalletApi.Proofs.Url.Segment

/-!
# Which layer a setting comes from

Settings are loaded from a file and from the environment. All that has to be known of the two is
what they hold under each key: a variable that sets the key wins, and else the file's value counts
(`WalletApi.SettingsSources.winner`). The loader puts the entries of both into one list and looks
the six fields up in it, so that

* an entry of the list is a key with its value as it stands, where keys do not go on with steps
  (`WalletApi.entryOf_of_isPlain`);
* looking a key up in the list finds its winner (`WalletApi.SettingsSources.lookup_layers`);
* a value is brought to the type of its field after that, and what lost is never looked at.

The kinds of keys play no part in this. Which credential is used is decided only when the settings
are turned into a configuration, and there the kinds alone count.

Nothing is supposed of the readers of YAML, INI, RON and JSON5 that the sources bring along: what
one makes of a text is the table that the file holds.
-/

namespace WalletApi

/-! ### Sources -/

/-- **What settings are loaded from**: the files of a directory, the path of one of them where there
is one, the environment, and the readers of the formats of files. -/
structure SettingsSources where
  files : List SettingsFile
  path : Option String
  environment : List (String × String)
  readers : FormatReaders

/-- What stands at the top of a file, and the name of the file. -/
structure SettingsTable where
  name : String
  entries : List (String × SettingValue)

/-- A value with the place where it stands as a whole. -/
def SettingValue.placed (origin : Origin) : SettingValue → Placed
  | .table => (none, .table)
  | v => (some origin, v)

/-- What a table holds under a key; where the key occurs twice, the last value. -/
def SettingsTable.value? (t : SettingsTable) (key : String) : Option Placed :=
  (t.entries.reverse.lookup key).map (SettingValue.placed (.file t.name))

/-- The name of a variable in lowercase. -/
def loweredName (name : String) : List Char := name.toList.map smallLetter

/-- The variable of a name sets a key. -/
def Sets (name key : String) : Prop := loweredName name = variableOpening ++ key.toList

instance (name key : String) : Decidable (Sets name key) :=
  inferInstanceAs (Decidable (loweredName name = variableOpening ++ key.toList))

/-- A key that goes on with no steps, as one of letters, digits and underscores. -/
def IsPlain (cs : List Char) : Prop := '.' ∉ cs ∧ '[' ∉ cs

instance (cs : List Char) : Decidable (IsPlain cs) :=
  inferInstanceAs (Decidable ('.' ∉ cs ∧ '[' ∉ cs))

/-- No file is where a path leads, by itself or with a known ending. -/
def SettingsFile.IsMissing (files : List SettingsFile) (path : String) : Prop :=
  (namesFile path = true → at? files path = none) ∧
    ∀ e ∈ SettingsFormat.endings,
      at? files ("/".intercalate (pathSteps path) ++ "." ++ e.1) = none

namespace SettingsSources

/-- The settings that the sources come to. -/
def load (src : SettingsSources) : Except SettingsFault ClientSettings :=
  ClientSettings.load src.files src.path src.environment src.readers

/-- The table of the file, or one without entries. -/
def table (src : SettingsSources) : Except SettingsFault SettingsTable :=
  match src.path with
  | none => .ok ⟨"", []⟩
  | some path =>
    SettingsFile.locate src.files path >>= fun found =>
      (found.1.entries src.readers found.2).map fun entries => ⟨found.1.name, entries⟩

/-- **The value that wins for a key**: that of the variable that sets it, or else that of the
file. -/
def winner (src : SettingsSources) (t : SettingsTable) (key : String) : Option Placed :=
  ((src.environment.find? fun v => Sets v.1 key).map fun v =>
    (some .environment, SettingValue.text v.2)).or (t.value? key)

/-- **The sources can be read** and hold a table: no key of the file and no variable with the
opening goes on with steps, and no two variables have one name in lowercase. -/
structure Holds (src : SettingsSources) (t : SettingsTable) : Prop where
  table_eq : src.table = .ok t
  keys : ∀ e ∈ t.entries, IsPlain e.1.toList
  names : ∀ v ∈ src.environment, variableOpening <+: loweredName v.1 → IsPlain v.1.toList
  distinct : (src.environment.map fun v => loweredName v.1).Nodup

end SettingsSources

/-! ### Entries with plain keys -/

theorem areSteps_eq_false {c : Char} {rest : List Char} (hpoint : c ≠ '.') (hbracket : c ≠ '[')
    (fuel : ℕ) : areSteps (fuel + 1) (c :: rest) = false := by
  rw [areSteps, if_neg hpoint, if_neg hbracket]

/-- A key without steps is the name of its entry, whatever its characters are. -/
theorem entryOf_of_isPlain {key : String} (h : IsPlain key.toList) (origin : Origin)
    (v : SettingValue) : entryOf key origin v = (key, v.placed origin) := by
  cases hsteps : key.toList.dropWhile isNameChar with
  | nil =>
    simp only [entryOf, hsteps, List.head?_nil, ite_self]
    cases v <;> rfl
  | cons c rest =>
    -- what follows the name begins with a character that begins no step
    have hc : c ∈ key.toList := (List.dropWhile_suffix _).subset (hsteps ▸ List.mem_cons_self)
    have hno : areSteps (rest.length + 1) (c :: rest) = false :=
      areSteps_eq_false (fun hp => h.1 (hp ▸ hc)) (fun hb => h.2 (hb ▸ hc)) _
    simp only [entryOf, hsteps, List.length_cons, hno, or_true, if_true]
    cases v <;> rfl

/-- Nothing but a letter becomes a small letter. -/
theorem eq_of_smallLetter_eq {c d : Char} (hd : d.isLower = false) (h : smallLetter c = d) :
    c = d := by
  rw [smallLetter] at h
  split at h
  · rw [← h] at hd
    exact absurd hd (by decide)
  · by_cases halpha : c.isAlpha = true
    · have hlower : c.toLower.isLower = true :=
        Url.of_isAlpha (P := fun c => c.toLower.isLower = true) (by decide +kernel) halpha
      rw [h, hd] at hlower
      exact absurd hlower Bool.false_ne_true
    · have hkept : c.toLower = c :=
        dif_neg fun hupper => halpha (Bool.or_eq_true_iff.mpr (.inl (decide_eq_true hupper)))
      rw [← h, hkept]

theorem keyOfVariable?_eq_some_iff {name key : String} :
    keyOfVariable? name = some key ↔ Sets name key := by
  change (if variableOpening.isPrefixOf (loweredName name) then
    some (String.ofList ((loweredName name).drop variableOpening.length)) else none) = some key ↔ _
  rw [Sets, Option.ite_none_right_eq_some, List.isPrefixOf_iff_prefix, Option.some.injEq]
  constructor
  · rintro ⟨⟨rest, hrest⟩, rfl⟩
    rw [← hrest, List.drop_left, String.toList_ofList]
  · intro h
    rw [h, List.drop_left, String.ofList_toList]
    exact ⟨List.prefix_append _ _, rfl⟩

/-- What a variable with a plain name sets is plain. -/
theorem IsPlain.of_sets {name key : String} (h : IsPlain name.toList) (hsets : Sets name key) :
    IsPlain key.toList := by
  have hmem : ∀ d ∈ key.toList, d.isLower = false → d ∈ name.toList := by
    intro d hd hlower
    have hlowered : d ∈ loweredName name := hsets ▸ List.mem_append_right _ hd
    obtain ⟨c, hc, hcd⟩ := List.mem_map.mp hlowered
    exact eq_of_smallLetter_eq hlower hcd ▸ hc
  exact ⟨fun hp => h.1 (hmem _ hp rfl), fun hb => h.2 (hmem _ hb rfl)⟩

/-! ### What is found under a key -/

section Environment

variable {v : String × String} {rest : List (String × String)}

theorem environmentEntries_cons_none (h : keyOfVariable? v.1 = none) :
    environmentEntries (v :: rest) = environmentEntries rest :=
  List.filterMap_cons_none (by rw [h]; rfl)

theorem environmentEntries_cons_some {key : String} (h : keyOfVariable? v.1 = some key) :
    environmentEntries (v :: rest) =
      entryOf key .environment (.text v.2) :: environmentEntries rest :=
  List.filterMap_cons_some (by rw [h]; rfl)

end Environment

/-- Under a key the environment has the first variable that sets it. -/
theorem lookup_environmentEntries {environment : List (String × String)}
    (h : ∀ v ∈ environment, variableOpening <+: loweredName v.1 → IsPlain v.1.toList)
    (key : String) :
    (environmentEntries environment).lookup key =
      (environment.find? fun v => Sets v.1 key).map fun v =>
        (some .environment, SettingValue.text v.2) := by
  induction environment with
  | nil => rfl
  | cons v rest ih =>
    have hrest := ih fun w hw => h w (List.mem_cons_of_mem _ hw)
    cases hkey : keyOfVariable? v.1 with
    | none =>
      have hno : ¬ Sets v.1 key := by simp [← keyOfVariable?_eq_some_iff, hkey]
      rw [environmentEntries_cons_none hkey, hrest, List.find?_cons_of_neg (by simpa using hno)]
    | some k =>
      -- a variable sets one key only, so that it decides the search or is passed over in both lists
      have hsets : Sets v.1 k := keyOfVariable?_eq_some_iff.mp hkey
      have hplain : IsPlain k.toList :=
        (h v List.mem_cons_self (hsets ▸ List.prefix_append _ _)).of_sets hsets
      rw [environmentEntries_cons_some hkey, entryOf_of_isPlain hplain]
      by_cases hk : key = k
      · subst hk
        rw [List.lookup_cons_self, List.find?_cons_of_pos (by simpa using hsets)]
        rfl
      · have hno : ¬ Sets v.1 key := by
          rw [← keyOfVariable?_eq_some_iff, hkey]
          exact fun heq => hk (Option.some.inj heq).symm
        rw [List.lookup_cons, beq_false_of_ne hk, List.find?_cons_of_neg (by simpa using hno)]
        exact hrest

/-- Under a key a file has the last value of the key. -/
theorem SettingsTable.lookup_entries {t : SettingsTable}
    (h : ∀ e ∈ t.entries, IsPlain e.1.toList) (key : String) :
    (t.entries.reverse.map fun e => entryOf e.1 (.file t.name) e.2).lookup key = t.value? key := by
  have hmap : (t.entries.reverse.map fun e => entryOf e.1 (.file t.name) e.2) =
      t.entries.reverse.map fun e => (e.1, e.2.placed (.file t.name)) :=
    List.map_congr_left fun e he => entryOf_of_isPlain (h e (List.mem_reverse.mp he)) _ _
  rw [hmap, lookup_map_snd, SettingsTable.value?]

namespace SettingsSources

/-- The entries of the table as the loader puts them into its list. -/
def layers (src : SettingsSources) (t : SettingsTable) : List (String × Placed) :=
  environmentEntries src.environment ++
    t.entries.reverse.map fun e => entryOf e.1 (.file t.name) e.2

/-- The loader reads the file and looks the fields up in both layers. -/
theorem load_eq (src : SettingsSources) :
    src.load = src.table >>= fun t => ClientSettings.ofEntries (src.layers t) := by
  rw [load, ClientSettings.load.eq_def, table]
  cases src.path with
  | none => rfl
  | some path =>
    dsimp only
    cases SettingsFile.locate src.files path with
    | error e => rfl
    | ok found =>
      rw [ok_bind, ok_bind, fileEntries]
      cases found.1.entries src.readers found.2 with
      | error e => rfl
      | ok entries => rfl

/-- **Looking a key up in both layers** finds the value that wins for it. -/
theorem lookup_layers {src : SettingsSources} {t : SettingsTable} (h : src.Holds t) (key : String) :
    (src.layers t).lookup key = src.winner t key := by
  rw [layers, List.lookup_append, lookup_environmentEntries h.names,
    SettingsTable.lookup_entries h.keys, winner]

end SettingsSources

/-! ### What sources come to -/

namespace SettingsSources

open ClientSettings

theorem locate_of_isMissing {files : List SettingsFile} {path : String}
    (h : SettingsFile.IsMissing files path) :
    SettingsFile.locate files path = .error (.fileNotFound path) := by
  have hexact : (if SettingsFile.namesFile path then SettingsFile.at? files path else none) =
      none := by
    split
    · next hnames => exact h.1 hnames
    · rfl
  have hfound : (SettingsFormat.endings.findSome? fun e =>
      (SettingsFile.at? files
        ("/".intercalate (SettingsFile.pathSteps path) ++ "." ++ e.1)).map (·, e.2)) = none :=
    List.findSome?_eq_none_iff.mpr fun e he => by rw [h.2 e he]; rfl
  simp only [SettingsFile.locate, hexact]
  rw [hfound]

theorem table_eq {src : SettingsSources} {path : String} (h : src.path = some path) :
    src.table = SettingsFile.locate src.files path >>= fun found =>
      (found.1.entries src.readers found.2).map fun entries => ⟨found.1.name, entries⟩ := by
  rw [table, h]

theorem exists_fault_of_unread {src : SettingsSources} {path : String}
    (hpath : src.path = some path)
    (h : ¬ ∃ f format entries, SettingsFile.locate src.files path = .ok (f, format) ∧
      f.entries src.readers format = .ok entries) : ∃ fault, src.table = .error fault := by
  cases htable : src.table with
  | error fault => exact ⟨fault, rfl⟩
  | ok t =>
    rw [table_eq hpath] at htable
    obtain ⟨found, hlocate, hmap⟩ := bind_eq_ok.mp htable
    obtain ⟨entries, hentries, -⟩ := map_eq_ok.mp hmap
    exact absurd ⟨found.1, found.2, entries, hlocate, hentries⟩ h

/-- A variable that sets a key wins, where no two variables have one name in lowercase. -/
theorem winner_of_sets {src : SettingsSources} {t : SettingsTable} (h : src.Holds t)
    {v : String × String} (hv : v ∈ src.environment) {key : String} (hsets : Sets v.1 key) :
    src.winner t key = some (some .environment, .text v.2) := by
  have hfound : (src.environment.find? fun v => Sets v.1 key) = some v := by
    cases hfirst : src.environment.find? fun v => Sets v.1 key with
    | none => exact absurd hsets (by simpa using List.find?_eq_none.mp hfirst v hv)
    | some w =>
      have hw : Sets w.1 key := by simpa using List.find?_some hfirst
      exact congrArg some (List.inj_on_of_nodup_map h.distinct (List.mem_of_find?_eq_some hfirst)
        hv (hw.trans hsets.symm))
  rw [winner, hfound]
  rfl

/-- Where no variable sets a key the file's value counts. -/
theorem winner_of_not_sets {src : SettingsSources} {t : SettingsTable} {key : String}
    (h : ∀ v ∈ src.environment, ¬ Sets v.1 key) : src.winner t key = t.value? key := by
  have hfound : (src.environment.find? fun v => Sets v.1 key) = none := by
    rw [List.find?_eq_none]
    simpa using h
  rw [winner, hfound]
  rfl

/-- A file that is missing or cannot be read is the fault, whatever else there is. -/
theorem load_of_fault {src : SettingsSources} {fault : SettingsFault} (h : src.table = .error fault)
    (environment : List (String × String)) :
    { src with environment := environment }.load = .error fault := by
  have htable : { src with environment := environment }.table = .error fault := h
  rw [load_eq, htable, error_bind]

/-- Where the file can be read its table goes into the list. -/
theorem load_of_holds {src : SettingsSources} {t : SettingsTable} (h : src.Holds t) :
    src.load = ofEntries (src.layers t) := by
  rw [load_eq, h.table_eq, ok_bind]

/-- **Settings are layered field by field**, and the credential is chosen by kind after that.

A file that is missing or cannot be read is the fault, whatever the environment holds. Otherwise a
variable that sets a key wins over the file; the settings are loaded exactly where each of the six
winners fits its field; each field then is what its winner comes to, and is left open exactly where
nothing or a missing value has won; and whatever else the sources hold makes no difference. The
configuration has the defaults for what is left open, and an access key before an extended private
key before an extended public key, whichever layers they are from. All this holds whatever the
readers of the formats are. -/
theorem load_layered (src : SettingsSources) :
    (∀ path, src.path = some path → SettingsFile.IsMissing src.files path →
      ∀ environment, { src with environment := environment }.load = .error (.fileNotFound path)) ∧
    (∀ path, src.path = some path →
      (¬ ∃ f format entries, SettingsFile.locate src.files path = .ok (f, format) ∧
        f.entries src.readers format = .ok entries) →
      ∃ fault, ∀ environment, { src with environment := environment }.load = .error fault) ∧
    ∀ t, src.Holds t →
      (∀ v ∈ src.environment, ∀ key, Sets v.1 key →
        src.winner t key = some (some .environment, .text v.2)) ∧
      (∀ key, (∀ v ∈ src.environment, ¬ Sets v.1 key) → src.winner t key = t.value? key) ∧
      ((∃ s, src.load = .ok s) ↔
        (∀ key ∈ textKeys, ∀ w ∈ src.winner t key, w.2.CanBeText) ∧
          ∀ key ∈ countKeys, ∀ w ∈ src.winner t key, w.2.CanBeCount) ∧
      (∀ s, src.load = .ok s →
        (∀ f ∈ s.texts, asText f.1 (src.winner t f.1) = .ok f.2 ∧
          (f.2 = none ↔ IsUnset (src.winner t f.1))) ∧
        (∀ f ∈ s.counts, asCount f.1 (src.winner t f.1) = .ok f.2 ∧
          (f.2 = none ↔ IsUnset (src.winner t f.1))) ∧
        s.toConfig.1 =
          { baseUrl := s.baseUrl.getD ClientConfig.default.baseUrl
            timeout := (s.timeoutSecs.map (· * 1000)).getD ClientConfig.default.timeout
            connectTimeout :=
              (s.connectTimeoutSecs.map (· * 1000)).getD ClientConfig.default.connectTimeout
            credential :=
              (s.accessKey.map Credential.accessKey).or
                ((s.xpriv.map Credential.xpriv).or (s.xpub.map Credential.xpub)) }) ∧
      ∀ (others : SettingsSources) (u : SettingsTable), others.Holds u →
        (∀ key ∈ textKeys ++ countKeys, others.winner u key = src.winner t key) →
          others.load = src.load := by
  refine ⟨fun path hpath hmissing => load_of_fault ?_, fun path hpath hunread => ?_, fun t h =>
    ⟨fun v hv key => winner_of_sets h hv, fun key => winner_of_not_sets, ?_, fun s hs => ?_,
      fun others u hothers hwinners => ?_⟩⟩
  · rw [table_eq hpath, locate_of_isMissing hmissing, error_bind]
  · obtain ⟨fault, hfault⟩ := exists_fault_of_unread hpath hunread
    exact ⟨fault, load_of_fault hfault⟩
  · rw [load_of_holds h, exists_ofEntries_iff]
    simp only [lookup_layers h]
  · rw [load_of_holds h, ofEntries_eq_ok_iff] at hs
    simp only [lookup_layers h] at hs
    exact ⟨fun f hf => ⟨hs.1 f hf, eq_none_iff_of_asText (hs.1 f hf)⟩,
      fun f hf => ⟨hs.2 f hf, eq_none_iff_of_asCount (hs.2 f hf)⟩, s.toConfig_fst⟩
  · rw [load_of_holds h, load_of_holds hothers]
    refine ofEntries_congr fun key hkey => ?_
    rw [lookup_layers h, lookup_layers hothers, hwinners key hkey]

theorem holds_of_all {src : SettingsSources} {t : SettingsTable} (h : src.table = .ok t)
    (hkeys : src.table.map (fun t => t.entries.all fun e => IsPlain e.1.toList) = .ok true)
    (hnames : ∀ v ∈ src.environment, variableOpening <+: loweredName v.1 → IsPlain v.1.toList)
    (hdistinct : (src.environment.map fun v => loweredName v.1).Nodup) : src.Holds t where
  table_eq := h
  keys := by
    rw [h] at hkeys
    exact fun e he => of_decide_eq_true (List.all_eq_true.mp (Except.ok.inj hkeys) e he)
  names := hnames
  distinct := hdistinct

/-- A file with a time that is no count and an access key, and variables for the time and for an
extended key. -/
def overridden : SettingsSources where
  files := [⟨"wallet.toml", "timeout_secs = \"soon\"\naccess_key = \"first\"\n"⟩]
  path := some "wallet.toml"
  environment :=
    [("SPV_WALLET_TIMEOUT_SECS", "5"), ("PATH", "/bin"), ("Spv_Wallet_Xpriv", "second")]
  readers := .flat

/-- A text in YAML with an access key inside another table. -/
def nestedText : String := "profiles:\n  access_key: other\nxpub: mine"

/-- A file with that text, found by its ending. The readers are good for this text alone. -/
def nested : SettingsSources where
  files := [⟨"wallet.yaml", nestedText⟩]
  path := some "wallet"
  environment := [("SPV_WALLET_TIMEOUT_SECS", "5")]
  readers :=
    { yaml := fun cs =>
        if cs = nestedText.toList then some (.table [("profiles", .table), ("xpub", .text "mine")])
        else none
      ini := fun _ => none
      ron := fun _ => none
      json5 := fun _ => none }

/-- The time in the file would be no count, but that of the variable counts; the access key of the
file outranks the extended key of the variable. Where another file is asked for, no variable
helps. An access key inside a table is none of the settings, so that the extended key beside that
table is used. -/
theorem load_layered_overridden :
    (∃ s, overridden.load = .ok s ∧ s.timeoutSecs = some 5 ∧
      s.toConfig.1.credential = some (.accessKey "first")) ∧
    (∀ environment, { overridden with path := some "other", environment := environment }.load =
      .error (.fileNotFound "other")) ∧
    ∃ s, nested.load = .ok s ∧ s.accessKey = none ∧
      s.toConfig.1.credential = some (.xpub "mine") := by
  refine ⟨?_, ?_, ?_⟩
  · have hread : overridden.table.isOk = true := by decide +kernel
    have hload : overridden.load.isOk = true := by decide +kernel
    have hkey : overridden.table.map (fun t =>
        asText "access_key" (overridden.winner t "access_key")) = .ok (.ok (some "first")) := by
      decide +kernel
    obtain ⟨t, ht⟩ := exists_of_isOk hread
    obtain ⟨s, hs⟩ := exists_of_isOk hload
    have hholds : overridden.Holds t :=
      holds_of_all ht (by decide +kernel) (by decide +kernel) (by decide +kernel)
    obtain ⟨hsets, -, -, hfields, -⟩ := (load_layered overridden).2.2 t hholds
    obtain ⟨htexts, hcounts, hconfig⟩ := hfields s hs
    have htimeout := (hcounts ("timeout_secs", s.timeoutSecs) List.mem_cons_self).1
    have haccess := (htexts ("access_key", s.accessKey) (by simp [texts])).1
    have hvariable : Sets "SPV_WALLET_TIMEOUT_SECS" "timeout_secs" := by decide
    rw [hsets _ List.mem_cons_self _ hvariable] at htimeout
    rw [ht] at hkey
    have haccessKey : s.accessKey = some "first" :=
      Except.ok.inj (haccess.symm.trans (Except.ok.inj hkey))
    exact ⟨s, hs, (Except.ok.inj htimeout).symm, by rw [hconfig, haccessKey]; rfl⟩
  · refine (load_layered { overridden with path := some "other" }).1 "other" rfl ⟨fun _ => ?_, ?_⟩
    · exact Option.isNone_iff_eq_none.mp (by decide +kernel)
    · have hendings : (SettingsFormat.endings.all fun e => (SettingsFile.at? overridden.files
          ("/".intercalate (SettingsFile.pathSteps "other") ++ "." ++ e.1)).isNone) = true := by
        decide +kernel
      exact fun e he => Option.isNone_iff_eq_none.mp (List.all_eq_true.mp hendings e he)
  · have hread : nested.table.isOk = true := by decide +kernel
    have hload : nested.load.isOk = true := by decide +kernel
    -- the table of the file has no access key, since that of the text stands one level below
    have hkeys : nested.table.map (fun t => ["access_key", "xpriv", "xpub"].map fun key =>
        asText key (nested.winner t key)) = .ok [.ok none, .ok none, .ok (some "mine")] := by
      decide +kernel
    obtain ⟨t, ht⟩ := exists_of_isOk hread
    obtain ⟨s, hs⟩ := exists_of_isOk hload
    have hholds : nested.Holds t :=
      holds_of_all ht (by decide +kernel) (by decide +kernel) (by decide +kernel)
    obtain ⟨htexts, -, hconfig⟩ := ((load_layered nested).2.2 t hholds).2.2.2.1 s hs
    have haccess := (htexts ("access_key", s.accessKey) (by simp [texts])).1
    have hxpriv := (htexts ("xpriv", s.xpriv) (by simp [texts])).1
    have hxpub := (htexts ("xpub", s.xpub) (by simp [texts])).1
    rw [ht] at hkeys
    simp only [Except.map, List.map_cons, List.map_nil, haccess, hxpriv, hxpub, Except.ok.injEq,
      List.cons.injEq, and_true] at hkeys
    obtain ⟨haccessKey, hprivate, hpublic⟩ := hkeys
    exact ⟨s, hs, haccessKey, by rw [hconfig, haccessKey, hprivate, hpublic]; rfl⟩

end SettingsSources

end WalletApi
