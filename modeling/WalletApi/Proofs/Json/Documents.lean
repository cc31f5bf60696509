import WalletApi.Client.Basic
import WalletApi.Proofs.Json.Scalars

/-!
# Documents of written values

The text of a value whose numbers are whole is read as the document of the value, and nothing is
left of it (`WalletApi.Json.Doc.ofBytes_bodyOf`). A value inside a text is followed by a comma or by
a closing bracket, and the one that follows a comma begins neither with a blank nor with a closing
bracket, so that each entry of a container ends where it was written to end. The fuel is spent by
containers and by their entries, of which each has at least one character of its own.
-/

namespace WalletApi.Json

/-- **The numbers of a value are whole** and fit sixty-four bits, with or without a sign. -/
inductive Value.IsWhole : Value → Prop
  | null : IsWhole .null
  | bool (b : Bool) : IsWhole (.bool b)
  | string (s : String) : IsWhole (.string s)
  | integer {n : ℤ} (hlow : -(Nat.pow 2 63 : ℕ) ≤ n) (hhigh : n ≤ Number.unsignedMax) :
    IsWhole (.number (.integer n))
  | array {items : List Value} (h : ∀ v ∈ items, IsWhole v) : IsWhole (.array items)
  | object {members : List (String × Value)} (h : ∀ e ∈ members, IsWhole e.2) :
    IsWhole (.object members)

namespace Doc

mutual
/-- The document of a value. -/
def ofValue : Value → Doc
  | .null => .null
  | .bool b => .bool b
  | .number n => .number n
  | .string s => .string s
  | .array items => .array (ofItems items) none
  | .object members => .object (ofMembers members) none

/-- The documents of values. -/
def ofItems : List Value → List Doc
  | [] => []
  | v :: rest => ofValue v :: ofItems rest

/-- The documents of members. -/
def ofMembers : List (String × Value) → List (Doc × Doc)
  | [] => []
  | (k, v) :: rest => (.string k, ofValue v) :: ofMembers rest
end

/-! ### One value in a text -/

/-- **A value is recovered** in front of whatever may follow it, and it begins as a value that
follows a comma has to. -/
structure Recovers (v : Value) : Prop where
  begins : ∃ b bs, Utf8.encode v.chars = b :: bs ∧ isBlank b = false ∧ b ≠ ascii ']'
  found : ∀ (fuel : ℕ) (rest : Bytes), 2 * v.chars.length ≤ fuel → Follows rest →
    value fuel (Utf8.encode v.chars ++ rest) = (ofValue v, some rest)

theorem follows_cons {c : Char} (hc : c = ',' ∨ c = ']' ∨ c = '\x7d') (rest : Bytes) :
    Follows (ascii c :: rest) := by
  intro b hb
  obtain rfl := Option.some.inj hb
  rcases hc with rfl | rfl | rfl
  · exact .inl rfl
  · exact .inr (.inl rfl)
  · exact .inr (.inr rfl)

theorem separator_close {c : Char} (hblank : isBlank (ascii c) = false) (rest : Bytes) :
    separator c (ascii c :: rest) = .closed rest := by
  rw [separator, skipBlanks_cons hblank]
  simp only [if_true]

theorem separator_comma {c : Char} (hc : ascii ',' ≠ ascii c) {b : UInt8}
    (hblank : isBlank b = false) (hb : b ≠ ascii c) (bs : Bytes) :
    separator c (ascii ',' :: b :: bs) = .next (b :: bs) := by
  rw [separator, skipBlanks_cons (by decide)]
  simp only [if_neg hc, if_true, skipBlanks_cons hblank, if_neg hb]

/-! ### Containers -/

/-- The items of an array are recovered from one on. -/
theorem items_written {v : Value} {l : List Value} (hv : Recovers v) (hl : ∀ w ∈ l, Recovers w)
    (fuel : ℕ) (hfuel : 2 * (v.chars ++ Value.itemChars l).length < fuel) (rest : Bytes) :
    items fuel (Utf8.encode (v.chars ++ Value.itemChars l) ++ rest) =
      (ofItems (v :: l), none, some rest) := by
  induction l generalizing v fuel with
  | nil =>
    obtain ⟨fuel, rfl⟩ := Nat.exists_eq_add_one_of_ne_zero (Nat.ne_zero_of_lt hfuel)
    rw [List.length_append] at hfuel
    have hfound := hv.found fuel _ (by omega) (follows_cons (c := ']') (by simp) rest)
    rw [Value.itemChars, Utf8.encode_append, Utf8.encode_cons_of_lt (by decide), Utf8.encode_nil,
      List.append_assoc, List.singleton_append, items, hfound]
    simp only [separator_close (c := ']') rfl, ofItems]
  | cons w l ih =>
    obtain ⟨fuel, rfl⟩ := Nat.exists_eq_add_one_of_ne_zero (Nat.ne_zero_of_lt hfuel)
    rw [Value.itemChars, List.length_append, List.length_cons] at hfuel
    have hfound := hv.found fuel _ (by omega) (follows_cons (c := ',') (by simp)
      (Utf8.encode (w.chars ++ Value.itemChars l) ++ rest))
    have hw := hl w List.mem_cons_self
    obtain ⟨b, bs, hbegins, hblank, hb⟩ := hw.begins
    have hsep : separator ']' (ascii ',' :: (Utf8.encode (w.chars ++ Value.itemChars l) ++ rest)) =
        .next (Utf8.encode (w.chars ++ Value.itemChars l) ++ rest) := by
      rw [Utf8.encode_append, hbegins, List.cons_append, List.cons_append]
      exact separator_comma (by decide) hblank hb _
    have hrest := ih hw (fun x hx => hl x (List.mem_cons_of_mem w hx)) fuel (by omega)
    rw [Value.itemChars, Utf8.encode_append, Utf8.encode_cons_of_lt (by decide), List.append_assoc,
      List.cons_append, items, hfound]
    simp only [hsep, hrest, ofItems]

theorem afterColon_written (bs : Bytes) : afterColon (ascii ':' :: bs) = .ok bs := by
  rw [afterColon, skipBlanks_cons (by decide)]
  exact if_pos rfl

theorem encode_member (k : String) (cs : List Char) (rest : Bytes) :
    Utf8.encode (Value.stringChars k ++ ':' :: cs) ++ rest =
      Utf8.encode (Value.stringChars k) ++ ascii ':' :: (Utf8.encode cs ++ rest) := by
  rw [Utf8.encode_append, Utf8.encode_cons_of_lt (by decide), List.append_assoc, List.cons_append]

/-- The members of an object are recovered from one on. -/
theorem members_written {k : String} {v : Value} {l : List (String × Value)} (hv : Recovers v)
    (hl : ∀ e ∈ l, Recovers e.2) (fuel : ℕ)
    (hfuel : 2 * (Value.stringChars k ++ ':' :: (v.chars ++ Value.memberChars l)).length < fuel)
    (rest : Bytes) :
    members fuel (Utf8.encode (Value.stringChars k ++ ':' :: (v.chars ++ Value.memberChars l))
      ++ rest) = (ofMembers ((k, v) :: l), none, some rest) := by
  induction l generalizing k v fuel with
  | nil =>
    obtain ⟨fuel, rfl⟩ := Nat.exists_eq_add_one_of_ne_zero (Nat.ne_zero_of_lt hfuel)
    rw [List.length_append, List.length_cons, List.length_append] at hfuel
    have hfound := hv.found fuel _ (by omega) (follows_cons (c := '\x7d') (by simp) rest)
    rw [encode_member, Value.memberChars, Utf8.encode_append, Utf8.encode_cons_of_lt (by decide),
      Utf8.encode_nil, List.append_assoc, List.singleton_append, members, keyFrom_written]
    simp only [afterColon_written, hfound, separator_close (c := '\x7d') rfl, ofMembers]
  | cons e l ih =>
    obtain ⟨fuel, rfl⟩ := Nat.exists_eq_add_one_of_ne_zero (Nat.ne_zero_of_lt hfuel)
    obtain ⟨name, w⟩ := e
    rw [Value.memberChars, List.length_append, List.length_cons, List.length_append,
      List.length_cons] at hfuel
    have hfound := hv.found fuel _ (by omega) (follows_cons (c := ',') (by simp)
      (Utf8.encode (Value.stringChars name ++ ':' :: (w.chars ++ Value.memberChars l)) ++ rest))
    have hsep : separator '\x7d' (ascii ',' ::
          (Utf8.encode (Value.stringChars name ++ ':' :: (w.chars ++ Value.memberChars l)) ++ rest))
        = .next (Utf8.encode (Value.stringChars name ++ ':' :: (w.chars ++ Value.memberChars l))
          ++ rest) := by
      rw [encode_member, encode_stringChars]
      exact separator_comma (by decide) (by decide) (by decide) _
    have hw : Recovers w := hl (name, w) List.mem_cons_self
    have hrest := ih hw (fun x hx => hl x (List.mem_cons_of_mem _ hx)) (k := name) fuel (by omega)
    rw [encode_member, Value.memberChars, Utf8.encode_append, Utf8.encode_cons_of_lt (by decide),
      List.append_assoc, List.cons_append, members, keyFrom_written]
    simp only [afterColon_written, hfound, hsep, hrest, ofMembers]

/-! ### Every value -/

theorem recovers_of_leaf {v : Value} (hbegins : ∃ b bs, Utf8.encode v.chars = b :: bs ∧
      isBlank b = false ∧ b ≠ ascii ']')
    (h : ∀ fuel rest, Follows rest →
      value (fuel + 1) (Utf8.encode v.chars ++ rest) = (ofValue v, some rest)) : Recovers v where
  begins := hbegins
  found fuel rest hfuel hrest := by
    have hpos : v.chars ≠ [] := by
      intro hnil
      obtain ⟨b, bs, hbytes, -⟩ := hbegins
      rw [hnil, Utf8.encode_nil] at hbytes
      exact nomatch hbytes
    have hlength := List.length_pos_iff.mpr hpos
    obtain ⟨fuel, rfl⟩ := Nat.exists_eq_add_one_of_ne_zero (by omega : fuel ≠ 0)
    exact h fuel rest hrest

theorem recovers_integer {n : ℤ} (hlow : -(Nat.pow 2 63 : ℕ) ≤ n) (hhigh : n ≤ Number.unsignedMax) :
    Recovers (.number (.integer n)) := by
  refine recovers_of_leaf ?_ fun fuel rest hrest => ?_
  · rw [Value.chars]
    rcases encode_integer n with ⟨m, -, hbytes⟩ | ⟨m, -, -, hbytes⟩
    · obtain ⟨b, bs, hdigits, hb⟩ := exists_encode_toDigits m
      exact ⟨b, bs, hbytes.trans hdigits, isBlank_of_isDigit hb, ne_of_isDigit hb rfl⟩
    · exact ⟨_, _, hbytes, rfl, by decide⟩
  · rw [Value.chars]
    exact value_integer hlow hhigh fuel hrest

theorem recovers_string (s : String) : Recovers (.string s) := by
  refine recovers_of_leaf ?_ fun fuel rest _ => ?_
  · have hbytes := encode_stringChars s []
    rw [List.append_nil] at hbytes
    exact ⟨_, _, by rw [Value.chars, hbytes], rfl, by decide⟩
  · rw [Value.chars]
    exact value_string s fuel rest

/-- After an opening bracket that nothing but an entry follows, the entries are read. -/
theorem value_array {fuel : ℕ} {b : UInt8} (hblank : isBlank b = false) (hb : b ≠ ascii ']')
    (bs : Bytes) : value (fuel + 1) (ascii '[' :: b :: bs) =
      (.array (items fuel (b :: bs)).1 (items fuel (b :: bs)).2.1,
        (items fuel (b :: bs)).2.2) := by
  rw [value, skipBlanks_cons (by decide)]
  simp only [if_true, skipBlanks_cons hblank, if_neg hb]

@[inherit_doc value_array]
theorem value_object {fuel : ℕ} {b : UInt8} (hblank : isBlank b = false) (hb : b ≠ ascii '\x7d')
    (bs : Bytes) : value (fuel + 1) (ascii '\x7b' :: b :: bs) =
      (.object (members fuel (b :: bs)).1 (members fuel (b :: bs)).2.1,
        (members fuel (b :: bs)).2.2) := by
  have hsquare : ascii '\x7b' ≠ ascii '[' := by decide
  rw [value, skipBlanks_cons (by decide)]
  simp only [if_neg hsquare, if_true, skipBlanks_cons hblank, if_neg hb]

theorem recovers_array {l : List Value} (h : ∀ v ∈ l, Recovers v) : Recovers (.array l) := by
  cases l with
  | nil =>
    refine recovers_of_leaf ⟨_, _, rfl, rfl, by decide⟩ fun fuel rest _ => ?_
    rfl
  | cons v l =>
    refine ⟨⟨_, _, Utf8.encode_cons_of_lt (by decide) _, rfl, by decide⟩,
      fun fuel rest hfuel _ => ?_⟩
    rw [Value.chars, List.length_cons] at hfuel
    obtain ⟨fuel, rfl⟩ := Nat.exists_eq_add_one_of_ne_zero (by omega : fuel ≠ 0)
    have hv := h v List.mem_cons_self
    obtain ⟨b, bs, hbegins, hblank, hb⟩ := hv.begins
    have hitems := items_written hv (fun w hw => h w (List.mem_cons_of_mem v hw))
      fuel (by omega) rest
    rw [Utf8.encode_append, hbegins, List.cons_append, List.cons_append] at hitems
    rw [Value.chars, Utf8.encode_cons_of_lt (by decide), Utf8.encode_append, hbegins,
      List.cons_append, List.cons_append, List.cons_append, value_array hblank hb, hitems, ofValue]

theorem recovers_object {l : List (String × Value)} (h : ∀ e ∈ l, Recovers e.2) :
    Recovers (.object l) := by
  cases l with
  | nil =>
    refine recovers_of_leaf ⟨_, _, rfl, rfl, by decide⟩ fun fuel rest _ => ?_
    rfl
  | cons e l =>
    obtain ⟨k, v⟩ := e
    refine ⟨⟨_, _, Utf8.encode_cons_of_lt (by decide) _, rfl, by decide⟩,
      fun fuel rest hfuel _ => ?_⟩
    rw [Value.chars, List.length_cons] at hfuel
    obtain ⟨fuel, rfl⟩ := Nat.exists_eq_add_one_of_ne_zero (by omega : fuel ≠ 0)
    have hv : Recovers v := h (k, v) List.mem_cons_self
    have hmembers := members_written hv (fun w hw => h w (List.mem_cons_of_mem _ hw)) (k := k)
      fuel (by omega) rest
    rw [encode_member, encode_stringChars] at hmembers
    rw [Value.chars, Utf8.encode_cons_of_lt (by decide), List.cons_append, encode_member,
      encode_stringChars, value_object (by decide) (by decide), hmembers, ofValue]

/-- **A value with whole numbers is recovered from its text.** -/
theorem recovers_of_isWhole {v : Value} (h : v.IsWhole) : Recovers v := by
  induction h with
  | null =>
    refine recovers_of_leaf ⟨_, _, rfl, rfl, by decide⟩ fun fuel rest _ => ?_
    exact value_of_leaf fuel (by decide) (by decide) (by decide) _
  | bool b =>
    cases b with
    | false =>
      refine recovers_of_leaf ⟨_, _, rfl, rfl, by decide⟩ fun fuel rest _ => ?_
      exact value_of_leaf fuel (by decide) (by decide) (by decide) _
    | true =>
      refine recovers_of_leaf ⟨_, _, rfl, rfl, by decide⟩ fun fuel rest _ => ?_
      exact value_of_leaf fuel (by decide) (by decide) (by decide) _
  | string s => exact recovers_string s
  | integer hlow hhigh => exact recovers_integer hlow hhigh
  | array h ih => exact recovers_array ih
  | object h ih => exact recovers_object ih

/-- **The text of a value with whole numbers is read as its document**, to the end. -/
theorem ofBytes_bodyOf {v : Value} (h : v.IsWhole) :
    ofBytes (Client.bodyOf v) = (ofValue v, none) := by
  have hlength := Utf8.length_le_length_encode v.chars
  have hfound := (recovers_of_isWhole h).found (2 * (Client.bodyOf v).length + 2) []
    (by rw [Client.bodyOf]; omega) (fun b hb => nomatch hb)
  rw [List.append_nil] at hfound
  rw [ofBytes, Client.bodyOf] at *
  rw [hfound]
  rfl

end Doc

end WalletApi.Json
