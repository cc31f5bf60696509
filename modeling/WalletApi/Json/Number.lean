import WalletApi.Bytes
import WalletApi.Decimal.Shortest

/-!
# Numbers of JSON documents

A number written with digits alone is a whole number when it fits sixty-four bits, with or without a
sign; every other one is kept in double precision. Its digits make a whole number of at most
sixty-four bits first, later digits only shift the exponent, and one multiplication or division by a
power of ten follows, each rounded on its own.
-/

namespace WalletApi.Json

/-- **A number.** -/
inductive Number
  | integer (n : Int)
  | float (x : Binary64)

/-- The parts of a written number: its sign, the digits before the point and those after it, and the
exponent. -/
structure Numeral where
  negative : Bool
  whole : List Nat
  /-- The digits after the point, if there is one. -/
  fraction : Option (List Nat)
  exponent : Option Int

namespace Number

/-- The greatest number of sixty-four bits. -/
def unsignedMax : Nat := Nat.pow 2 64 - 1

/-- The text of a number. -/
def text : Number → String
  | .integer n => toString n
  | .float x => x.exponentText

/-- Two numbers are equal in kind and in value. -/
def same : Number → Number → Bool
  | .integer m, .integer n => m == n
  | .float x, .float y => x == y
  | _, _ => false

instance : BEq Number := ⟨same⟩

/-- As many leading digits as fit sixty-four bits, read after those of `n`, with the digits that are
left. -/
def takeDigits (n : Nat) : List Nat → Nat × List Nat
  | [] => (n, [])
  | d :: rest => if n * 10 + d ≤ unsignedMax then takeDigits (n * 10 + d) rest else (n, d :: rest)

/-- A number times a power of ten, unless it exceeds the range. Beyond the least power in range the
number is divided in steps; `steps` bounds their number. -/
def scaled : Nat → Binary64 → Int → Option Binary64
  | steps, x, e =>
    if e < -(Binary64.tableEnd : Int) then
      if x.isZero then some x
      else
        match steps with
        | 0 => some (.zero x.negative)
        | steps + 1 =>
          match x.div (.tenPow Binary64.tableEnd) with
          | none => none
          | some y => scaled steps y (e + Binary64.tableEnd)
    else if e < 0 then x.div (.tenPow e.natAbs)
    else if e ≤ Binary64.tableEnd then x.mul (.tenPow e.natAbs)
    else if x.isZero then some x
    else none

/-- How often a number in range can be divided by the greatest power of ten before it is zero. -/
def divisionSteps : Nat := 3

/-- **The number that a numeral writes**, unless it exceeds the range of double precision. -/
def ofNumeral (numeral : Numeral) : Option Number :=
  let (n, dropped) := takeDigits 0 numeral.whole
  let float (significand : Nat) (e : Int) : Option Number :=
    (scaled divisionSteps (.ofNat significand) e).map fun x =>
      .float (if numeral.negative then x.neg else x)
  match dropped, numeral.fraction, numeral.exponent with
  | [], none, none =>
    if numeral.negative = false then some (.integer n)
    else if n = 0 ∨ Nat.pow 2 63 < n then some (.float (Binary64.ofNat n).neg)
    else some (.integer (-n))
  | dropped, fraction, exponent =>
    let fraction := fraction.getD []
    let (significand, cut) := takeDigits n fraction
    let shift : Int := dropped.length - (fraction.length - cut.length : Nat)
    float significand (shift + exponent.getD 0)

end Number

end WalletApi.Json
