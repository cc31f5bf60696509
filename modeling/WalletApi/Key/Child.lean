import WalletApi.Key.Extended

/-!
# One-time child keys

A request is signed with a key that is used once: the descendant of the master key that a nonce
addresses. The nonce is a string of hexadecimal digits, cut into groups of eight; each group is read
as a number and, when it reaches `2 ^ 31 - 1`, lowered by that much. So the only group that
addresses a hardened child is `ffffffff`, and a verifier who holds the public master key can follow
every other path.
-/

namespace WalletApi

/-- Why a descendant cannot be derived. -/
inductive DerivationFault
  | emptyNonce
  | notHex (c : Char)
  | noSecretHalf
  | hardenedFromPublic
  | depthExceeded
  /-- The digest that makes the child is no usable number. -/
  | unusableDigest
deriving DecidableEq

/-- The wording of a fault. -/
def DerivationFault.message : DerivationFault → String
  | .emptyNonce => "nonce is empty"
  | .notHex c => "nonce contains non-hex character " ++ Text.quoteChar c
  | .noSecretHalf => "extended key has no private key material"
  | .hardenedFromPublic => "cannot derive hardened key from public key"
  | .depthExceeded => "cannot derive child of depth 256 or higher"
  | .unusableDigest => "digest out of range"

/-! ### Nonces as paths -/

namespace ChildNumber

/-- The digits of a nonce that make one step of a path. -/
def groupLength : Nat := 8

/-- Group values from this one on are lowered by it. -/
def groupOffset : Nat := 0x7fffffff

/-- The number that hexadecimal digits write. -/
def groupValue (digits : List Char) : Nat :=
  digits.foldl (fun n c => n * 16 + (Hex.value? c).getD 0) 0

/-- The step of a path that a group of digits makes. -/
def ofGroup (digits : List Char) : ChildNumber :=
  let n := groupValue digits
  ⟨UInt32.ofNat (if n < groupOffset then n else n - groupOffset)⟩

/-- The digits in groups; the last group may be shorter. -/
def groups (digits : List Char) : List (List Char) :=
  if _h : digits = [] then [] else digits.take groupLength :: groups (digits.drop groupLength)
termination_by digits.length
decreasing_by
  have : digits.length ≠ 0 := by simp_all
  simp only [List.length_drop, groupLength]
  omega

/-- **The path that a nonce addresses.** -/
def ofNonce (nonce : String) : Except DerivationFault (List ChildNumber) :=
  let digits := nonce.toList
  if digits = [] then .error .emptyNonce
  else
    match digits.find? fun c => (Hex.value? c).isNone with
    | some c => .error (.notHex c)
    | none => .ok ((groups digits).map ofGroup)

/-- A path as text, its steps between slashes. -/
def pathText (path : List ChildNumber) : String := "/".intercalate (path.map text)

end ChildNumber

/-! ### Children -/

/-- The first four bytes of the digest that names a public key. -/
def PublicKey.fingerprint (k : PublicKey) : Bytes.Sized 4 :=
  Bytes.slice 0 4 (Ripemd160.hash (Sha256.hash k.compressed))

/-- The place in the tree of a child, from the public key of its parent and its new chain code;
there is none below the greatest depth. -/
def Lineage.below? (l : Lineage) (parent : PublicKey) (child : ChildNumber) (digest : Bytes) :
    Option Lineage :=
  if l.depth = 255 then none
  else some
    { network := l.network
      depth := l.depth + 1
      parent := parent.fingerprint
      child := child
      chainCode := Bytes.slice 32 32 digest }

/-- The child of a secret key. -/
def Xpriv.derive (k : Xpriv) (c : ChildNumber) : Except DerivationFault Xpriv :=
  let parent := k.key.publicKey
  let input := if c.isHardened then 0 :: k.key.bytes else parent.compressed
  let digest := Hmac.sha512 k.chainCode.val (input ++ c.bytes)
  match SecretKey.ofBytes? (digest.take 32) with
  | none => .error .unusableDigest
  | some tweak =>
    match SecretKey.ofNat? ((tweak.value + k.key.value) % groupOrder) with
    | none => .error .unusableDigest
    | some key =>
      match k.toLineage.below? parent c digest with
      | none => .error .depthExceeded
      | some lineage => .ok { lineage with key := key }

/-- The child of a public key, which is the public half of the secret key's child. -/
def Xpub.derive (k : Xpub) (c : ChildNumber) : Except DerivationFault Xpub :=
  if c.isHardened then .error .hardenedFromPublic
  else
    let digest := Hmac.sha512 k.chainCode.val (k.key.compressed ++ c.bytes)
    match SecretKey.ofBytes? (digest.take 32) with
    | none => .error .unusableDigest
    | some tweak =>
      match PublicKey.ofPoint? (tweak.publicKey.point.add k.key.point) with
      | none => .error .unusableDigest
      | some key =>
        match k.toLineage.below? k.key c digest with
        | none => .error .depthExceeded
        | some lineage => .ok { lineage with key := key }

/-- The descendant of a secret key along a path. -/
def Xpriv.descendant (k : Xpriv) (path : List ChildNumber) : Except DerivationFault Xpriv :=
  path.foldlM Xpriv.derive k

/-- The descendant of a public key along a path. -/
def Xpub.descendant (k : Xpub) (path : List ChildNumber) : Except DerivationFault Xpub :=
  path.foldlM Xpub.derive k

/-- **The one-time key of a nonce** below a secret master key. -/
def Xpriv.oneTimeKey (master : Xpriv) (nonce : String) : Except DerivationFault Xpriv := do
  let path ← ChildNumber.ofNonce nonce
  master.descendant path

/-- **The public one-time key of a nonce** below a public master key, as a verifier derives it. -/
def Xpub.oneTimeKey (master : Xpub) (nonce : String) : Except DerivationFault Xpub := do
  let path ← ChildNumber.ofNonce nonce
  master.descendant path

end WalletApi
