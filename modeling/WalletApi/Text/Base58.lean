import WalletApi.Hash.Sha256

/-!
# Base58 text with a checksum

A byte string is read as one number and written in base 58, in an alphabet without the digit zero,
the capitals I and O and the small l; each zero byte in front is written as a `1`. In the checked
form the first four bytes of the doubled SHA-256 digest follow the byte string before it is written.
-/

namespace WalletApi.Base58

/-- The digits, in rising order. -/
def alphabet : List Char :=
  "123456789ABCDEFGHJKLMNPQRSTUVWXYZabcdefghijkmnopqrstuvwxyz".toList

/-- The digit of a number below fifty-eight. -/
def digit (n : Nat) : Char := alphabet.getD n '1'

/-- The number of a digit. -/
def value? (c : Char) : Option Nat := alphabet.idxOf? c

/-- The digits of a number in a base, most significant first; zero has none. -/
def digitsIn (base : Nat) (n : Nat) : List Nat :=
  if _h : n = 0 ∨ base ≤ 1 then [] else digitsIn base (n / base) ++ [n % base]
termination_by n
decreasing_by exact Nat.div_lt_self (by omega) (by omega)

/-- The writing of a byte string. -/
def encode (bs : Bytes) : List Char :=
  (bs.takeWhile (· == 0)).map (fun _ => '1') ++ (digitsIn 58 bs.toNat).map digit

/-- The byte string that a text writes. -/
def decode? (cs : List Char) : Option Bytes := do
  let values ← cs.mapM value?
  let n := values.foldl (fun n v => n * 58 + v) 0
  some ((cs.takeWhile (· == '1')).map (fun _ => 0) ++ (digitsIn 256 n).map UInt8.ofNat)

/-- The four bytes that guard a byte string against slips of the pen. -/
def checksum (bs : Bytes) : Bytes := (Sha256.double bs).take 4

/-- The writing of a byte string with its checksum. -/
def encodeChecked (bs : Bytes) : List Char := encode (bs ++ checksum bs)

/-- The byte string that a text writes with its checksum. -/
def decodeChecked? (cs : List Char) : Option Bytes := do
  let bs ← decode? cs
  if bs.length < 4 then none
  else
    let payload := bs.take (bs.length - 4)
    if checksum payload = bs.drop (bs.length - 4) then some payload else none

end WalletApi.Base58
