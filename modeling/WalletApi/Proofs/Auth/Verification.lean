import WalletApi.Proofs.Auth.HeaderValues
import WalletApi.Proofs.Auth.Message
import WalletApi.Proofs.Key.Derivation
import WalletApi.Proofs.Key.Descent
import WalletApi.Proofs.Key.Nonce
import WalletApi.Proofs.Key.Text

/-!
# A server can verify every signed request

A server sees the body of a request and the values of its headers, and nothing else. It reads the
five headers of a signed request (`WalletApi.HeaderMap.signedRequest?`), puts the signed text
together from them, finds the key that it has to verify with, and checks the signature.

* With an access key, the key is the one that the identity header writes, and the signature always
  verifies.
* With an extended key, the identity header writes the public half of the master, and the key is its
  child that the nonce addresses. There is such a child, and then the signature verifies, exactly
  when no group of the nonce is `ffffffff`: this one group is hardened, and a request whose nonce
  holds it can be signed and cannot be verified.

Both parts are in `WalletApi.Authenticator.append_verifiable`.
-/

namespace WalletApi

/-! ### The server's side -/

/-- **What a server reads from the headers of a signed request.** -/
structure SignedRequest where
  identity : String
  hash : String
  nonce : String
  time : String
  signature : String

/-- The signed text, put together from the headers. -/
def SignedRequest.message (r : SignedRequest) : String := r.identity ++ r.hash ++ r.nonce ++ r.time

namespace HeaderMap

/-- The value of a name that has one value. -/
def single? (h : HeaderMap) (name : String) : Option String :=
  match h.values name with
  | [value] => some value
  | _ => none

/-- The headers of a signed request whose sender is named in the header `identityHeader`. -/
def signedRequest? (h : HeaderMap) (identityHeader : String) : Option SignedRequest := do
  let identity ← h.single? identityHeader
  let hash ← h.single? hashHeader
  let nonce ← h.single? nonceHeader
  let time ← h.single? timeHeader
  let signature ← h.single? signatureHeader
  some ⟨identity, hash, nonce, time, signature⟩

theorem single?_of_values {h : HeaderMap} {name value : String} (hv : h.values name = [value]) :
    h.single? name = some value := by
  rw [single?, hv]

end HeaderMap

/-- The public key that a text writes in hexadecimal. -/
def PublicKey.ofDigits? (text : String) : Option PublicKey :=
  match Hex.decode (Utf8.encode text.toList) with
  | .error _ => none
  | .ok bs => PublicKey.ofBytes? bs

/-- The characters of a nonce. -/
def nonceDigits : List Char := "0123456789abcdef".toList

/-- The hardened group. -/
def hardenedGroup : List Char := "ffffffff".toList

namespace SignedRequest

/-- What a server finds out about the body, the nonce and the time of a request. -/
structure Describes (r : SignedRequest) (body : Bytes) (time : ℤ) : Prop where
  hash : r.hash = hashBody body
  length_nonce : r.nonce.length = 64
  mem_nonceDigits : ∀ d ∈ r.nonce.toList, d ∈ nonceDigits
  time : r.time.toInt? = some time

/-- The request names the public key of `key`, and the signature verifies under it. -/
structure VerifiesUnder (r : SignedRequest) (key : SecretKey) : Prop where
  identity : r.identity = key.publicText
  publicKey : PublicKey.ofDigits? r.identity = some key.publicKey
  verifies : key.publicKey.verifies r.message r.signature = true

/-- The request names the public half of `master`; its nonce has eight groups; and there is a child
of this nonce under which the signature verifies exactly when no group is the hardened one. -/
structure VerifiesBelow (r : SignedRequest) (master : Xpriv) : Prop where
  identity : ExtendedKey.ofXpub r.identity = .ok (.shared master.publicHalf)
  length_groups : (ChildNumber.groups r.nonce.toList).length = 8
  length_group : ∀ g ∈ ChildNumber.groups r.nonce.toList, g.length = 8
  verifies_iff : (∃ child, master.publicHalf.verifyingKey r.nonce = .ok child ∧
      child.key.verifies r.message r.signature = true) ↔
    ∀ g ∈ ChildNumber.groups r.nonce.toList, g ≠ hardenedGroup

end SignedRequest

/-! ### Payloads as a server reads them -/

/-- A payload as a server reads it. -/
def AuthPayload.asRequest (p : AuthPayload) : SignedRequest :=
  ⟨p.identity.text, p.hash, p.nonce, toString p.time, p.signature⟩

theorem AuthIdentity.header_snd (i : AuthIdentity) : i.header.2 = i.text := by
  cases i <;> rfl

/-- A map that holds one value for each header of a payload is read as this payload. -/
theorem HeaderMap.signedRequest?_of_values {h : HeaderMap} {p : AuthPayload}
    (hv : ∀ f ∈ p.headers, h.values f.1 = [f.2]) :
    h.signedRequest? p.identity.header.1 = some p.asRequest := by
  simp only [AuthPayload.headers, List.forall_mem_cons, AuthIdentity.header_snd] at hv
  obtain ⟨hidentity, hhash, hnonce, htime, hsignature, -⟩ := hv
  rw [signedRequest?, single?_of_values hidentity, single?_of_values hhash,
    single?_of_values hnonce, single?_of_values htime, single?_of_values hsignature]
  rfl

theorem PublicKey.ofDigits?_publicText (k : SecretKey) :
    PublicKey.ofDigits? k.publicText = some k.publicKey := by
  rw [PublicKey.ofDigits?, SecretKey.publicText, String.toList_ofList, Hex.decode_encode]
  exact PublicKey.ofBytes?_compressed _

theorem ExtendedKey.ofXpub_text (k : Xpub) : ExtendedKey.ofXpub k.text = .ok (.shared k) := by
  rw [ExtendedKey.ofXpub, Xpub.ofText_text]

theorem toInt?_toString (n : ℤ) : (toString n).toInt? = some n := Int.toInt?_repr n

/-! ### Nonces -/

theorem Hex.digit_mem_nonceDigits : ∀ n : Fin 16, Hex.digit n.val ∈ nonceDigits := by decide +kernel

theorem Hex.number_digit_eq_fifteen_iff :
    ∀ n : Fin 16, Hex.number (Hex.digit n.val) = 15 ↔ Hex.digit n.val = 'f' := by decide +kernel

namespace AuthPayload

variable (bytes : Bytes.Sized 32)

theorem length_nonceText : (nonceText bytes).length = 64 := by
  rw [nonceText, String.length_ofList, Hex.length_encode, bytes.property]

theorem exists_digit_of_mem_nonceText {c : Char} (h : c ∈ (nonceText bytes).toList) :
    ∃ n : Fin 16, Hex.digit n.val = c := by
  rw [nonceText, String.toList_ofList] at h
  obtain ⟨b, -, hc⟩ := List.mem_flatMap.mp h
  have hb := b.toNat_lt
  rcases List.mem_pair.mp hc with rfl | rfl
  · exact ⟨⟨b.toNat / 16, by omega⟩, rfl⟩
  · exact ⟨⟨b.toNat % 16, by omega⟩, rfl⟩

theorem mem_nonceDigits_of_mem_nonceText {c : Char} (h : c ∈ (nonceText bytes).toList) :
    c ∈ nonceDigits := by
  obtain ⟨n, rfl⟩ := exists_digit_of_mem_nonceText bytes h
  exact Hex.digit_mem_nonceDigits n

/-- A nonce makes eight groups of eight digits. -/
theorem groups_nonceText :
    (ChildNumber.groups (nonceText bytes).toList).length = 8 ∧
      ∀ g ∈ ChildNumber.groups (nonceText bytes).toList, g.length = 8 := by
  refine ChildNumber.groups_of_length ?_
  rw [String.length_toList, length_nonceText]

/-- The hardened groups of a nonce are those that read `ffffffff`. -/
theorem isHardened_group_iff {g : List Char}
    (hg : g ∈ ChildNumber.groups (nonceText bytes).toList) :
    (ChildNumber.ofGroup g).isHardened = true ↔ g = hardenedGroup := by
  have hlen := (groups_nonceText bytes).2 g hg
  -- Digits are written in lower case, so a digit fifteen is one letter and no other.
  have hdigit : ∀ c ∈ g, (Hex.number c = 15 ↔ c = 'f') := by
    intro c hc
    obtain ⟨n, rfl⟩ := exists_digit_of_mem_nonceText bytes (ChildNumber.mem_of_mem_groups hg hc)
    exact Hex.number_digit_eq_fifteen_iff n
  have hgroup : hardenedGroup = List.replicate 8 'f' := by decide
  rw [ChildNumber.isHardened_ofGroup hlen, hgroup, List.eq_replicate_iff]
  exact ⟨fun h => ⟨hlen, fun c hc => (hdigit c hc).mp (h c hc)⟩,
    fun h c hc => (hdigit c hc).mpr (h.2 c hc)⟩

end AuthPayload

/-! ### Verification -/

namespace Authenticator

variable {a : Authenticator} {h h' : HeaderMap} {body : Bytes} {moment : Moment}

/-- With an access key, a request is authenticated where there are random bytes and a signature of
the message is found. -/
theorem append_accessKey_of_sign? {key : SecretKey} {bytes : Bytes.Sized 32}
    (hrandom : moment.random = .ok bytes)
    (hsign : (Signature.sign? key (SignedMessage.digest (authMessage key.publicText (hashBody body)
      (AuthPayload.nonceText bytes) moment.time))).isSome = true) :
    ∃ h', (Authenticator.accessKey key).append h body moment = .ok h' := by
  obtain ⟨σ, hσ⟩ := Option.isSome_iff_exists.mp hsign
  have hp := AuthPayload.forAccessKey_eq_ok.mpr
    ⟨bytes, _, hrandom, SecretKey.signText_eq_ok.mpr ⟨σ, hσ, rfl⟩, rfl⟩
  exact ⟨_, append_eq_ok.mpr ⟨_, .accessKey hp, rfl⟩⟩

/-- With an extended key, a request is authenticated where there are random bytes, their path leads
not too deep and to a usable key, and a signature of the message is found. -/
theorem append_extendedKey_of_sign? {master : Xpriv} {bytes : Bytes.Sized 32}
    {path : List ChildNumber} {s : KeyState} (hrandom : moment.random = .ok bytes)
    (hpath : ChildNumber.ofNonce (AuthPayload.nonceText bytes) = .ok path)
    (hdepth : master.depth.toNat + path.length ≤ 255)
    (hstate : path.foldlM KeyState.next? master.state = some s)
    (hsign : (Signature.sign? s.key (SignedMessage.digest (authMessage master.publicHalf.text
      (hashBody body) (AuthPayload.nonceText bytes) moment.time))).isSome = true) :
    ∃ h', (Authenticator.extendedKey master).append h body moment = .ok h' := by
  obtain ⟨child, hdescendant, rfl⟩ := Xpriv.exists_descendant_of_foldlM hdepth hstate
  have hchild : master.signingKey (AuthPayload.nonceText bytes) = .ok child := by
    rw [Xpriv.signingKey_of_path _ hpath, hdescendant]
    rfl
  obtain ⟨σ, hσ⟩ := Option.isSome_iff_exists.mp hsign
  have hp := AuthPayload.forXpriv_eq_ok.mpr
    ⟨bytes, child, _, hrandom, hchild, SecretKey.signText_eq_ok.mpr ⟨σ, hσ, rfl⟩, rfl⟩
  exact ⟨_, append_eq_ok.mpr ⟨_, .extendedKey hp, rfl⟩⟩

/-- With an access key, the headers are read as a payload that the key has signed. -/
theorem signedRequest?_accessKey {key : SecretKey}
    (happ : (Authenticator.accessKey key).append h body moment = .ok h') :
    ∃ bytes σ, h'.signedRequest? accessKeyHeader =
        some ⟨key.publicText, hashBody body, AuthPayload.nonceText bytes, toString moment.time, σ⟩ ∧
      key.signText (authMessage key.publicText (hashBody body) (AuthPayload.nonceText bytes)
        moment.time) = .ok σ := by
  obtain ⟨fields, hissues, -, hvalues, -⟩ := isWritten_of_append happ
  cases hissues with
  | accessKey hp =>
    have hread := HeaderMap.signedRequest?_of_values hvalues
    obtain ⟨bytes, σ, -, hσ, rfl⟩ := AuthPayload.forAccessKey_eq_ok.mp hp
    exact ⟨bytes, σ, hread, hσ⟩

/-- With an extended key, the headers are read as a payload that the child of the nonce has signed.
-/
theorem signedRequest?_extendedKey {master : Xpriv}
    (happ : (Authenticator.extendedKey master).append h body moment = .ok h') :
    ∃ bytes child σ, moment.random = .ok bytes ∧
      h'.signedRequest? xpubHeader =
        some ⟨master.publicHalf.text, hashBody body, AuthPayload.nonceText bytes,
          toString moment.time, σ⟩ ∧
      master.signingKey (AuthPayload.nonceText bytes) = .ok child ∧
      child.key.signText (authMessage master.publicHalf.text (hashBody body)
        (AuthPayload.nonceText bytes) moment.time) = .ok σ := by
  obtain ⟨fields, hissues, -, hvalues, -⟩ := isWritten_of_append happ
  cases hissues with
  | extendedKey hp =>
    have hread := HeaderMap.signedRequest?_of_values hvalues
    obtain ⟨bytes, child, σ, hrandom, hchild, hσ, rfl⟩ := AuthPayload.forXpriv_eq_ok.mp hp
    exact ⟨bytes, child, σ, hrandom, hread, hchild, hσ⟩

/-- The nonce in the headers of a request is made of the random bytes of its moment. -/
theorem nonce_of_append {master : Xpriv} {bytes : Bytes.Sized 32} {r : SignedRequest}
    (happ : (Authenticator.extendedKey master).append h body moment = .ok h')
    (hrandom : moment.random = .ok bytes) (hread : h'.signedRequest? xpubHeader = some r) :
    r.nonce = AuthPayload.nonceText bytes := by
  obtain ⟨bytes', child, σ, hrandom', hread', -⟩ := signedRequest?_extendedKey happ
  obtain rfl := Except.ok.inj (hrandom.symm.trans hrandom')
  obtain rfl := Option.some.inj (hread.symm.trans hread')
  rfl

/-- A verifier who knows the public half finds the key that has signed exactly where no group of the
nonce is the hardened one. -/
theorem verifies_child_iff {master child : Xpriv} {bytes : Bytes.Sized 32} {message σ : String}
    (hchild : master.signingKey (AuthPayload.nonceText bytes) = .ok child)
    (hσ : child.key.signText message = .ok σ) :
    (∃ C, master.publicHalf.verifyingKey (AuthPayload.nonceText bytes) = .ok C ∧
        C.key.verifies message σ = true) ↔
      ∀ g ∈ ChildNumber.groups (AuthPayload.nonceText bytes).toList, g ≠ hardenedGroup := by
  have hopen : ∀ g ∈ ChildNumber.groups (AuthPayload.nonceText bytes).toList,
      ((ChildNumber.ofGroup g).isHardened = false ↔ g ≠ hardenedGroup) := fun g hg => by
    rw [← Bool.not_eq_true, AuthPayload.isHardened_group_iff bytes hg]
  constructor
  · rintro ⟨C, hC, -⟩ g hg
    exact (hopen g hg).mp (((master.verifyingKey_eq_ok C).mp hC).1 g hg)
  · intro hall
    have hC := (master.verifyingKey_eq_ok child.publicHalf).mpr
      ⟨fun g hg => (hopen g hg).mpr (hall g hg), child, hchild, rfl⟩
    exact ⟨child.publicHalf, hC, PublicKey.verifies_of_signText hσ⟩

theorem describes_asRequest (body : Bytes) (bytes : Bytes.Sized 32) (time : ℤ)
    (identity σ : String) :
    SignedRequest.Describes
      ⟨identity, hashBody body, AuthPayload.nonceText bytes, toString time, σ⟩ body time where
  hash := rfl
  length_nonce := AuthPayload.length_nonceText bytes
  mem_nonceDigits _ hd := AuthPayload.mem_nonceDigits_of_mem_nonceText bytes hd
  time := toInt?_toString time

/-- **A server can verify every signed request.** From the body and the headers alone it finds the
digest of the body, a nonce of sixty-four digits and the time; with an access key also the public
key, under which the signature verifies; and with an extended key the public half of the master,
whose child of the nonce exists and verifies the signature exactly when none of the eight groups of
the nonce is the hardened one. -/
theorem append_verifiable {c : Credential} (hc : ofCredential (some c) = .ok a)
    (hsigns : a.mode.signs = true) (happ : a.append h body moment = .ok h') :
    ∃ r : SignedRequest, r.Describes body moment.time ∧
      (∀ text, c = .accessKey text → h'.signedRequest? accessKeyHeader = some r ∧
        ∃ key, SecretKey.read text = .ok key ∧ r.VerifiesUnder key) ∧
      (∀ text, c = .xpriv text → h'.signedRequest? xpubHeader = some r ∧
        ∃ master, Xpriv.ofText text = .ok master ∧ r.VerifiesBelow master) := by
  cases c with
  | xpub text =>
    -- A credential that is public signs nothing.
    obtain ⟨key, -, rfl⟩ := ofCredential_xpub hc
    exact nomatch hsigns
  | accessKey text =>
    obtain ⟨key, hkey, rfl⟩ := ofCredential_accessKey hc
    obtain ⟨bytes, σ, hread, hσ⟩ := signedRequest?_accessKey happ
    refine ⟨_, describes_asRequest body bytes moment.time key.publicText σ, fun text' ht => ?_,
      fun text' ht => by cases ht⟩
    obtain rfl := Credential.accessKey.inj ht
    exact ⟨hread, key, hkey, rfl, PublicKey.ofDigits?_publicText key,
      PublicKey.verifies_of_signText hσ⟩
  | xpriv text =>
    obtain ⟨master, hkey, rfl⟩ := ofCredential_xpriv hc
    obtain ⟨bytes, child, σ, -, hread, hchild, hσ⟩ := signedRequest?_extendedKey happ
    refine ⟨_, describes_asRequest body bytes moment.time master.publicHalf.text σ,
      fun text' ht => (by cases ht), fun text' ht => ?_⟩
    obtain rfl := Credential.xpriv.inj ht
    exact ⟨hread, master, hkey, ExtendedKey.ofXpub_text _, (AuthPayload.groups_nonceText bytes).1,
      (AuthPayload.groups_nonceText bytes).2, verifies_child_iff hchild hσ⟩

/-! ### Signatures of a text with known parts -/

/-- The characters of a signed text, with the digest of the body on numbers. -/
def authChars (identity : List Char) (body : Bytes) (bytes : Bytes.Sized 32) (time : ℤ) :
    List Char :=
  identity ++ Hex.encode (Sha256.design.hash body) ++ Hex.encode bytes.val ++ (toString time).toList

theorem toList_authMessage (identity : List Char) (body : Bytes) (bytes : Bytes.Sized 32)
    (time : ℤ) :
    (authMessage (String.ofList identity) (hashBody body) (AuthPayload.nonceText bytes)
      time).toList = authChars identity body bytes time := by
  simp only [authMessage, hashBody, AuthPayload.nonceText, String.toList_append,
    String.toList_ofList, Sha256.hash_eq, authChars]

/-- A key signs the text where the first nonce for its characters gives a signature. -/
theorem isSome_sign?_authMessage {key : SecretKey} {identity : List Char} {bytes : Bytes.Sized 32}
    {time : ℤ}
    (h : let digest := SignedMessage.digestOn (authChars identity body bytes time)
      ∃ nonce ∈ SecretKey.ofBytes? (Signature.firstDraw key digest),
        Signature.NonceSigns key (Signature.scalar digest) nonce.value) :
    (Signature.sign? key (SignedMessage.digest (authMessage (String.ofList identity) (hashBody body)
      (AuthPayload.nonceText bytes) time))).isSome = true := by
  rw [SignedMessage.digest_eq, toList_authMessage]
  exact Signature.isSome_sign?_of_draw h

/-! ### A request of the least secret key -/

/-- The secret key one. -/
def keyOne : SecretKey := ⟨1, by decide, by decide⟩

/-- The text of the secret key one. -/
def keyOneText : String := "0000000000000000000000000000000000000000000000000000000000000001"

/-- A moment whose random bytes and whose time are zero. -/
def zeroMoment : Moment := ⟨.ok ⟨List.replicate 32 0, rfl⟩, 0⟩

theorem ofCredential_keyOneText :
    ofCredential (some (.accessKey keyOneText)) = .ok (.accessKey keyOne) := by decide +kernel

theorem isSome_sign?_keyOne :
    (Signature.sign? keyOne (SignedMessage.digest (authMessage keyOne.publicText (hashBody [])
      (AuthPayload.nonceText ⟨List.replicate 32 0, rfl⟩) 0))).isSome = true :=
  isSome_sign?_authMessage (by decide +kernel)

/-! ### Requests of a root with the least secret key -/

/-- A secret extended key at the root of a tree, with the secret key one. -/
def masterOne : Xpriv where
  network := .main
  depth := 0
  parent := ⟨Bytes.ofNat 4 0, Bytes.length_ofNat _ _⟩
  child := ⟨0⟩
  chainCode :=
    ⟨Bytes.ofNat 32 0x0101010101010101010101010101010101010101010101010101010101010101,
      Bytes.length_ofNat _ _⟩
  key := keyOne

/-- Random bytes that end in a hardened group. -/
def hardenedBytes : Bytes.Sized 32 := ⟨List.replicate 28 0 ++ List.replicate 4 255, rfl⟩

/-- A moment with these bytes. -/
def hardenedMoment : Moment := ⟨.ok hardenedBytes, 0⟩

/-- The key and the chain code seven levels below the root, along the first children. -/
def seventh : KeyState where
  key := ⟨0x76fb0580b8a92852fadbf9782e0be50b8be8433ca8237033abd4f226f6bcf1a0, by decide, by decide⟩
  chainCode :=
    ⟨Bytes.ofNat 32 0xeacda8c1d4f8ee481ed9c9f4c03a2e97d2fb2978ff35a0bca4a25d8afaa657a9,
      Bytes.length_ofNat _ _⟩

/-- The key and the chain code of the first child below that. -/
def eighth : KeyState where
  key := ⟨0xf87a1e091d5d20130c7f873e0cfeb895396fe119c661bd925ed5a3e31ee15170, by decide, by decide⟩
  chainCode :=
    ⟨Bytes.ofNat 32 0x92fab3f71f0804a6d3f77b9faac9ae9986ff1e4e89698f32ee75b62a6627e238,
      Bytes.length_ofNat _ _⟩

/-- The key and the chain code of the first hardened child in its place. -/
def eighthHardened : KeyState where
  key := ⟨0xa0250cb55e613bce076829e7299913a1f1b6e1b84a901189b275abea9c401603, by decide, by decide⟩
  chainCode :=
    ⟨Bytes.ofNat 32 0x44e849a5d55f8868f8a8a006fbf40a109f439a835d1b2d573b48afa18f2a730,
      Bytes.length_ofNat _ _⟩

/-- Seven steps along the first children. -/
def firstChildren : List ChildNumber := List.replicate 7 ⟨0⟩

theorem foldlM_masterOne_append {c : ChildNumber} {s : KeyState}
    (hseventh : firstChildren.foldlM KeyState.next? masterOne.state = some seventh)
    (h : seventh.next? c = some s) :
    (firstChildren ++ [c]).foldlM KeyState.next? masterOne.state = some s := by
  rw [List.foldlM_append, hseventh, Option.bind_eq_bind, Option.bind_some, List.foldlM_cons, h]
  rfl

/-- The root authenticates a request at both moments. The two paths part below the seventh level. -/
theorem exists_append_masterOne :
    (∃ h', (Authenticator.extendedKey masterOne).append .empty [] zeroMoment = .ok h') ∧
      ∃ h', (Authenticator.extendedKey masterOne).append .empty [] hardenedMoment = .ok h' := by
  have hseventh : firstChildren.foldlM KeyState.next? masterOne.state = some seventh := by
    decide +kernel
  constructor
  · have hpath : ChildNumber.ofNonce (AuthPayload.nonceText ⟨List.replicate 32 0, rfl⟩) =
        .ok (firstChildren ++ [⟨0⟩]) := by decide +kernel
    have hlast : seventh.next? ⟨0⟩ = some eighth := by decide +kernel
    exact append_extendedKey_of_sign? rfl hpath (by decide)
      (foldlM_masterOne_append hseventh hlast) (isSome_sign?_authMessage (by decide +kernel))
  · have hpath : ChildNumber.ofNonce (AuthPayload.nonceText hardenedBytes) =
        .ok (firstChildren ++ [⟨0x80000000⟩]) := by decide +kernel
    have hlast : seventh.next? ⟨0x80000000⟩ = some eighthHardened := by decide +kernel
    exact append_extendedKey_of_sign? rfl hpath (by decide)
      (foldlM_masterOne_append hseventh hlast) (isSome_sign?_authMessage (by decide +kernel))

theorem ofCredential_text (k : Xpriv) :
    ofCredential (some (.xpriv k.text)) = .ok (.extendedKey k) := by
  rw [ofCredential, Xpriv.ofText_text]

/-- The secret key one authenticates a request without a body, and a server verifies it. So does the
root with this key: what it signs below the first children all the way is verified by the public
half, and what it signs below a hardened child is not. -/
theorem append_verifiable_keyOne :
    (ofCredential (some (.accessKey keyOneText)) = .ok (.accessKey keyOne) ∧
      ∃ h', (Authenticator.accessKey keyOne).append .empty [] zeroMoment = .ok h' ∧
        ∃ r : SignedRequest, r.Describes [] 0 ∧ h'.signedRequest? accessKeyHeader = some r ∧
          ∃ key, SecretKey.read keyOneText = .ok key ∧ r.VerifiesUnder key) ∧
    ofCredential (some (.xpriv masterOne.text)) = .ok (.extendedKey masterOne) ∧
    (∃ h', (Authenticator.extendedKey masterOne).append .empty [] zeroMoment = .ok h' ∧
      ∃ r : SignedRequest, r.Describes [] 0 ∧ h'.signedRequest? xpubHeader = some r ∧
        ∃ child, masterOne.publicHalf.verifyingKey r.nonce = .ok child ∧
          child.key.verifies r.message r.signature = true) ∧
    ∃ h', (Authenticator.extendedKey masterOne).append .empty [] hardenedMoment = .ok h' ∧
      ∃ r : SignedRequest, r.Describes [] 0 ∧ h'.signedRequest? xpubHeader = some r ∧
        ¬ ∃ child, masterOne.publicHalf.verifyingKey r.nonce = .ok child ∧
          child.key.verifies r.message r.signature = true := by
  refine ⟨⟨ofCredential_keyOneText, ?_⟩, ofCredential_text masterOne, ?_, ?_⟩
  · obtain ⟨h', happ⟩ : ∃ h', (Authenticator.accessKey keyOne).append .empty [] zeroMoment =
        .ok h' := append_accessKey_of_sign? rfl isSome_sign?_keyOne
    obtain ⟨r, hdescribes, hkey, -⟩ := append_verifiable ofCredential_keyOneText rfl happ
    exact ⟨h', happ, r, hdescribes, hkey keyOneText rfl⟩
  · obtain ⟨h', happ⟩ := exists_append_masterOne.1
    obtain ⟨r, hdescribes, -, hmaster⟩ := append_verifiable (ofCredential_text masterOne) rfl happ
    obtain ⟨hread, master, htext, hverifies⟩ := hmaster masterOne.text rfl
    obtain rfl := Except.ok.inj ((Xpriv.ofText_text masterOne).symm.trans htext)
    have hopen : ∀ g ∈ ChildNumber.groups (AuthPayload.nonceText
        ⟨List.replicate 32 0, rfl⟩).toList, g ≠ hardenedGroup := by decide +kernel
    have hnonce := nonce_of_append happ rfl hread
    rw [← hnonce] at hopen
    exact ⟨h', happ, r, hdescribes, hread, hverifies.verifies_iff.mpr hopen⟩
  -- The last group of this nonce is the hardened one, so that no child of the public half is found.
  · obtain ⟨h', happ⟩ := exists_append_masterOne.2
    obtain ⟨r, hdescribes, -, hmaster⟩ := append_verifiable (ofCredential_text masterOne) rfl happ
    obtain ⟨hread, master, htext, hverifies⟩ := hmaster masterOne.text rfl
    obtain rfl := Except.ok.inj ((Xpriv.ofText_text masterOne).symm.trans htext)
    have hhardened : hardenedGroup ∈
        ChildNumber.groups (AuthPayload.nonceText hardenedBytes).toList := by decide +kernel
    have hnonce := nonce_of_append happ rfl hread
    rw [← hnonce] at hhardened
    exact ⟨h', happ, r, hdescribes, hread, fun hchild =>
      hverifies.verifies_iff.mp hchild _ hhardened rfl⟩

end Authenticator

end WalletApi
