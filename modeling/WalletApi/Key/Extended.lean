import WalletApi.Hash.Hmac
import WalletApi.Hash.Ripemd160
import WalletApi.Key.Secret

/-!
# Extended keys

An extended key is a key together with its place in a tree of keys and with a chain code, from which
its children are derived. It is written as seventy-eight bytes in checked Base58: a version that
tells the network and whether the key is secret, the depth, the fingerprint of the parent, the
number among the parent's children, the chain code, and thirty-three bytes for the key itself.
-/

namespace WalletApi

/-- The network that a key is meant for. -/
inductive Network
  | main
  | test
deriving DecidableEq

/-- **The number of a key among its parent's children.** The upper half of the range is hardened:
such a child can be derived from the secret parent only. -/
structure ChildNumber where
  raw : UInt32
deriving DecidableEq

namespace ChildNumber

/-- The first hardened number. -/
def hardenedStart : Nat := 0x80000000

/-- The number lies in the hardened half. -/
def isHardened (c : ChildNumber) : Bool := hardenedStart ≤ c.raw.toNat

/-- The number within its half. -/
def index (c : ChildNumber) : Nat := c.raw.toNat % hardenedStart

/-- The number as a step of a path, where an apostrophe marks a hardened one. -/
def text (c : ChildNumber) : String :=
  if c.isHardened then toString c.index ++ "'" else toString c.index

/-- The four bytes of the number. -/
def bytes (c : ChildNumber) : Bytes := Bytes.ofNat 4 c.raw.toNat

end ChildNumber

/-- The place of an extended key in its tree, with the chain code. -/
structure Lineage where
  network : Network
  depth : UInt8
  /-- The first bytes of the digest that names the parent's public key. -/
  parent : Bytes.Sized 4
  child : ChildNumber
  chainCode : Bytes.Sized 32
deriving DecidableEq

/-- **A secret extended key.** -/
structure Xpriv extends Lineage where
  key : SecretKey
deriving DecidableEq

/-- **A public extended key.** -/
structure Xpub extends Lineage where
  key : PublicKey
deriving DecidableEq

/-- The public half of a secret extended key. -/
def Xpriv.publicHalf (k : Xpriv) : Xpub := { k.toLineage with key := k.key.publicKey }

/-! ### The written form -/

/-- Why a text writes no extended key of the kind asked for. -/
inductive ExtendedFault
  /-- The text is no checked Base58. -/
  | base58
  /-- There are not seventy-eight bytes. -/
  | length
  /-- The first four bytes are no version of this kind. -/
  | version (bytes : Bytes)
  /-- The last bytes are no key. -/
  | key
deriving DecidableEq

/-- The wording of a fault. -/
def ExtendedFault.message : ExtendedFault → String
  | .base58 => "base58 encoding error"
  | .length => "base58 payload"
  | .version bytes =>
    "unknown version magic bytes: ["
      ++ ", ".intercalate (bytes.map fun b => toString b.toNat) ++ "]"
  | .key => "secp256k1 error"

/-- The version of a secret key. -/
def Xpriv.version : Network → Bytes
  | .main => [0x04, 0x88, 0xad, 0xe4]
  | .test => [0x04, 0x35, 0x83, 0x94]

/-- The version of a public key. -/
def Xpub.version : Network → Bytes
  | .main => [0x04, 0x88, 0xb2, 0x1e]
  | .test => [0x04, 0x35, 0x87, 0xcf]

/-- The forty-one bytes between the version and the key. -/
def Lineage.bytes (l : Lineage) : Bytes :=
  l.depth :: (l.parent.val ++ l.child.bytes ++ l.chainCode.val)

/-- The place in the tree that forty-one bytes write. -/
def Lineage.ofBytes (network : Network) (bs : Bytes) : Lineage where
  network := network
  depth := bs.headD 0
  parent := Bytes.slice 1 4 bs
  child := ⟨UInt32.ofNat (Bytes.toNat (Bytes.slice 5 4 bs).val)⟩
  chainCode := Bytes.slice 9 32 bs

/-- The seventy-eight bytes that a text writes, after their version has been recognised: the network
and the seventy-four bytes that follow. -/
def readVersioned (version : Network → Bytes) (cs : List Char) :
    Except ExtendedFault (Network × Bytes) :=
  match Base58.decodeChecked? cs with
  | none => .error .base58
  | some bs =>
    if bs.length = 78 then
      if bs.take 4 = version .main then .ok (.main, bs.drop 4)
      else if bs.take 4 = version .test then .ok (.test, bs.drop 4)
      else .error (.version (bs.take 4))
    else .error .length

namespace Xpriv

/-- The written form. -/
def text (k : Xpriv) : String :=
  String.ofList (Base58.encodeChecked (version k.network ++ k.toLineage.bytes ++ 0 :: k.key.bytes))

/-- The key that a text writes, blanks at both ends aside. The byte in front of the secret key is
not looked at. -/
def ofText (s : String) : Except ExtendedFault Xpriv :=
  match readVersioned version (Text.trim s.toList) with
  | .error fault => .error fault
  | .ok (network, bs) =>
    match SecretKey.ofBytes? (bs.drop 42) with
    | none => .error .key
    | some key => .ok { Lineage.ofBytes network bs with key := key }

end Xpriv

namespace Xpub

/-- The written form. -/
def text (k : Xpub) : String :=
  String.ofList (Base58.encodeChecked (version k.network ++ k.toLineage.bytes ++ k.key.compressed))

/-- The key that a text writes, blanks at both ends aside. -/
def ofText (s : String) : Except ExtendedFault Xpub :=
  match readVersioned version (Text.trim s.toList) with
  | .error fault => .error fault
  | .ok (network, bs) =>
    match PublicKey.ofBytes? (bs.drop 41) with
    | none => .error .key
    | some key => .ok { Lineage.ofBytes network bs with key := key }

end Xpub

/-! ### Either kind -/

/-- **An extended key of either kind.** -/
inductive ExtendedKey
  | secret (key : Xpriv)
  | shared (key : Xpub)
deriving DecidableEq

namespace ExtendedKey

/-- The public half. -/
def xpub : ExtendedKey → Xpub
  | .secret key => key.publicHalf
  | .shared key => key

/-- The secret half, if there is one. -/
def xpriv? : ExtendedKey → Option Xpriv
  | .secret key => some key
  | .shared _ => none

/-- The key carries its secret half. -/
def isSecret (k : ExtendedKey) : Bool := k.xpriv?.isSome

/-- The key that a text writes, of either kind; the secret kind is tried first, and when both fail
both reasons are kept. -/
def ofText (s : String) : Except (ExtendedFault × ExtendedFault) ExtendedKey :=
  match Xpriv.ofText s with
  | .ok key => .ok (.secret key)
  | .error asSecret =>
    match Xpub.ofText s with
    | .ok key => .ok (.shared key)
    | .error asShared => .error (asSecret, asShared)

/-- How a key is shown in messages: its kind and its public half only. -/
def shown : ExtendedKey → String
  | .secret key => "ExtendedKey::Private(" ++ key.publicHalf.text ++ ")"
  | .shared key => "ExtendedKey::Public(" ++ key.text ++ ")"

end ExtendedKey

end WalletApi
