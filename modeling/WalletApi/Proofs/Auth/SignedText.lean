import WalletApi.Proofs.Auth.Verification
import WalletApi.Proofs.Key.Width

/-!
# What a signed text determines

The four parts of a signed text are written one after the other, with nothing in between. They can
be told apart because of their widths. The digest and the nonce have sixty-four digits each, the
name of the sender has one of two widths, which its first character tells, and the time, whose
width varies, comes last.

So two payloads whose signed texts are equal agree in the mode, the name, the digest, the nonce, the
time and the random bytes that the nonce writes (`WalletApi.AuthPayload.BuiltFor.eq_of_message_eq`).
-/

namespace WalletApi

/-! ### Names of senders -/

/-- The mode that signs under a name of this kind. -/
def AuthIdentity.mode : AuthIdentity → AuthMode
  | .xpub _ => .signedWithDerivedKey
  | .accessKey _ => .signedWithAccessKey

/-- The name is the written form of a key. -/
inductive AuthIdentity.NamesKey : AuthIdentity → Prop
  | xpub (k : Xpub) : NamesKey (.xpub k.text)
  | accessKey (k : SecretKey) : NamesKey (.accessKey k.publicText)

namespace AuthIdentity

/-- Names of both kinds begin with different characters. -/
theorem text_append_ne (k : SecretKey) (x : Xpub) (s t : List Char) :
    k.publicText.toList ++ s ≠ x.text.toList ++ t := by
  obtain ⟨-, hzero⟩ := k.exists_publicText
  have hx : x.text.toList ≠ [] := by
    intro hnil
    have hlen := x.length_text
    rw [← String.length_toList, hnil] at hlen
    exact absurd hlen (by decide)
  intro heq
  have hhead := congrArg List.head? heq
  rw [List.head?_append, hzero, Option.some_or, List.head?_append_of_ne_nil _ hx] at hhead
  exact x.zero_notMem_text (List.mem_of_head? hhead.symm)

/-- **A name can be cut off the front of a text**: no name of a key goes on into what follows
another one. -/
theorem eq_of_text_append {i j : AuthIdentity} (hi : i.NamesKey) (hj : j.NamesKey)
    {s t : List Char} (h : i.text.toList ++ s = j.text.toList ++ t) : i = j ∧ s = t := by
  cases hi with
  | xpub x =>
    cases hj with
    | xpub y =>
      have hlen : x.text.toList.length = y.text.toList.length := by
        rw [String.length_toList, String.length_toList, x.length_text, y.length_text]
      obtain ⟨htext, hrest⟩ := List.append_inj h hlen
      exact ⟨congrArg AuthIdentity.xpub (String.toList_inj.mp htext), hrest⟩
    | accessKey k => exact absurd h.symm (text_append_ne k x t s)
  | accessKey k =>
    cases hj with
    | xpub x => exact absurd h (text_append_ne k x s t)
    | accessKey l =>
      have hlen : k.publicText.toList.length = l.publicText.toList.length := by
        rw [String.length_toList, String.length_toList, k.exists_publicText.1,
          l.exists_publicText.1]
      obtain ⟨htext, hrest⟩ := List.append_inj h hlen
      exact ⟨congrArg AuthIdentity.accessKey (String.toList_inj.mp htext), hrest⟩

end AuthIdentity

/-! ### The other parts -/

theorem length_hashBody (body : Bytes) : (hashBody body).length = 64 := by
  rw [hashBody, String.length_ofList, Hex.length_encode, Sha256.length_hash]

theorem AuthPayload.nonceText_inj {a b : Bytes.Sized 32} (h : nonceText a = nonceText b) :
    a = b := by
  have hdigits : Hex.encode a.val = Hex.encode b.val := by
    rw [← String.toList_ofList (l := Hex.encode a.val), ← nonceText, h, nonceText,
      String.toList_ofList]
  have hread := Hex.decode_encode a.val
  rw [hdigits, Hex.decode_encode] at hread
  exact Subtype.ext (Except.ok.inj hread).symm

theorem toString_int_inj {m n : ℤ} (h : toString m = toString n) : m = n := by
  have hread := toInt?_toString m
  rw [h, toInt?_toString] at hread
  exact (Option.some.inj hread).symm

/-- **A signed text determines its parts**, where the name is that of a key and the digest and the
nonce have their widths. -/
theorem eq_of_authMessage_eq {i j : AuthIdentity} (hi : i.NamesKey) (hj : j.NamesKey)
    {hash hash' nonce nonce' : String} {time time' : ℤ} (hhash : hash.length = hash'.length)
    (hnonce : nonce.length = nonce'.length)
    (h : authMessage i.text hash nonce time = authMessage j.text hash' nonce' time') :
    i = j ∧ hash = hash' ∧ nonce = nonce' ∧ time = time' := by
  have hchars := congrArg String.toList h
  simp only [authMessage, String.toList_append, List.append_assoc] at hchars
  obtain ⟨hname, hchars⟩ := AuthIdentity.eq_of_text_append hi hj hchars
  obtain ⟨hhash, hchars⟩ :=
    List.append_inj hchars (by simpa only [String.length_toList] using hhash)
  obtain ⟨hnonce, htime⟩ :=
    List.append_inj hchars (by simpa only [String.length_toList] using hnonce)
  exact ⟨hname, String.toList_inj.mp hhash, String.toList_inj.mp hnonce,
    toString_int_inj (String.toList_inj.mp htime)⟩

/-! ### Payloads -/

namespace AuthPayload

/-- The text that the signature of a payload is over. -/
def message (p : AuthPayload) : String := authMessage p.identity.text p.hash p.nonce p.time

/-- **A payload that was built for a body at a moment**, in one of the two modes that sign. -/
inductive BuiltFor (body : Bytes) (moment : Moment) : AuthMode → AuthPayload → Prop
  | accessKey {key : SecretKey} {p : AuthPayload} (h : forAccessKey key body moment = .ok p) :
    BuiltFor body moment .signedWithAccessKey p
  | extendedKey {master : ExtendedKey} {p : AuthPayload}
    (h : forExtendedKey master body moment = .ok p) :
    BuiltFor body moment .signedWithDerivedKey p

namespace BuiltFor

variable {body body' : Bytes} {moment moment' : Moment} {mode mode' : AuthMode} {p q : AuthPayload}

/-- What a payload holds: the name of a key in its mode, the digest of the body, the random bytes
and the time of the moment, and the signature of its text by some key. -/
theorem exists_fields (h : BuiltFor body moment mode p) :
    ∃ identity bytes σ, AuthIdentity.NamesKey identity ∧ identity.mode = mode ∧
      moment.random = .ok bytes ∧
      (∃ key : SecretKey, key.signText (authMessage identity.text (hashBody body) (nonceText bytes)
        moment.time) = .ok σ) ∧
      p = ⟨identity, hashBody body, nonceText bytes, moment.time, σ⟩ := by
  cases h with
  | accessKey h =>
    obtain ⟨bytes, σ, hrandom, hσ, rfl⟩ := forAccessKey_eq_ok.mp h
    exact ⟨_, bytes, σ, .accessKey _, rfl, hrandom, ⟨_, hσ⟩, rfl⟩
  | extendedKey h =>
    rename_i master
    obtain ⟨xpriv, -, h⟩ := bind_eq_ok.mp h
    obtain ⟨bytes, child, σ, hrandom, -, hσ, rfl⟩ := forXpriv_eq_ok.mp h
    exact ⟨_, bytes, σ, .xpub _, rfl, hrandom, ⟨_, hσ⟩, rfl⟩

/-- Payloads of one nonce were built from the same random bytes. -/
theorem random_eq_of_nonce_eq (hp : BuiltFor body moment mode p)
    (hq : BuiltFor body' moment' mode' q) (h : p.nonce = q.nonce) :
    moment.random = moment'.random := by
  obtain ⟨_, bytes, _, -, -, hrandom, -, rfl⟩ := hp.exists_fields
  obtain ⟨_, bytes', _, -, -, hrandom', -, rfl⟩ := hq.exists_fields
  rw [hrandom, hrandom', nonceText_inj h]

/-- **The signed text of a payload determines every field that is signed**, and the random bytes of
the nonce. -/
theorem eq_of_message_eq (hp : BuiltFor body moment mode p) (hq : BuiltFor body' moment' mode' q)
    (h : p.message = q.message) :
    mode = mode' ∧ p.identity = q.identity ∧ p.hash = q.hash ∧ p.nonce = q.nonce ∧
      p.time = q.time ∧ moment.random = moment'.random := by
  obtain ⟨i, bytes, _, hi, hmode, -, -, hpeq⟩ := hp.exists_fields
  obtain ⟨j, bytes', _, hj, hmode', -, -, hqeq⟩ := hq.exists_fields
  have hfields : p.identity = q.identity ∧ p.hash = q.hash ∧ p.nonce = q.nonce ∧
      p.time = q.time := by
    subst hpeq hqeq
    exact eq_of_authMessage_eq hi hj (by rw [length_hashBody, length_hashBody])
      (by rw [length_nonceText, length_nonceText]) h
  have hidentity : i = j := by
    have hname := hfields.1
    rwa [hpeq, hqeq] at hname
  obtain ⟨hname, hhash, hnonce, htime⟩ := hfields
  exact ⟨by rw [← hmode, ← hmode', hidentity], hname, hhash, hnonce, htime,
    hp.random_eq_of_nonce_eq hq hnonce⟩

end BuiltFor

end AuthPayload

end WalletApi
