import WalletApi.Hash.Sha256
import WalletApi.Hash.Sha512

/-!
# Keyed digests

A keyed digest mixes a key into a digest twice, once inside and once outside, so that only a holder
of the key can compute it. A key longer than a block of the hash function is replaced by its digest.
-/

namespace WalletApi.Hmac

/-- The key at the width of a block. -/
def blockKey (hash : Bytes → Bytes) (block : Nat) (key : Bytes) : Bytes :=
  let short := if key.length > block then hash key else key
  short ++ List.replicate (block - short.length) 0

/-- The keyed digest over a hash function with the given block size. -/
def keyed (hash : Bytes → Bytes) (block : Nat) (key message : Bytes) : Bytes :=
  let k := blockKey hash block key
  hash (k.map (· ^^^ 0x5c) ++ hash (k.map (· ^^^ 0x36) ++ message))

/-- The keyed digest over SHA-256. -/
def sha256 (key message : Bytes) : Bytes := keyed Sha256.hash 64 key message

/-- The keyed digest over SHA-512. -/
def sha512 (key message : Bytes) : Bytes := keyed Sha512.hash 128 key message

@[simp] theorem length_sha256 (key message : Bytes) : (sha256 key message).length = 32 := by
  simp [sha256, keyed]

@[simp] theorem length_sha512 (key message : Bytes) : (sha512 key message).length = 64 := by
  simp [sha512, keyed]

end WalletApi.Hmac
