/-!
# Numbers in double precision

A number in double precision is a sign, a mantissa below `2 ^ 53` and a power of two.
`Binary64.round` gives the nearest such number to a ratio of two natural numbers, and of two nearest
ones the one with the even mantissa; the other operations are exact in the ratios and round once.
There is no infinity: what exceeds the range is no number.
-/

namespace WalletApi

/-- **A number in double precision**, `± mantissa * 2 ^ exponent`. The mantissa of a number other
than zero has fifty-three bits, or fewer at the least exponent. -/
structure Binary64 where
  negative : Bool
  mantissa : Nat
  exponent : Int

namespace Binary64

/-- The least exponent. -/
def minExponent : Int := -1074

/-- The greatest exponent. -/
def maxExponent : Int := 971

/-- The bound that mantissas stay below. -/
def mantissaEnd : Nat := Nat.pow 2 53

/-- The least mantissa of fifty-three bits. -/
def leastFull : Nat := Nat.pow 2 52

/-- Zero, with a sign. -/
def zero (negative : Bool) : Binary64 := ⟨negative, 0, minExponent⟩

/-- The number is a zero of either sign. -/
def isZero (x : Binary64) : Bool := x.mantissa == 0

/-- The opposite number. -/
def neg (x : Binary64) : Binary64 := { x with negative := !x.negative }

/-- Two numbers are equal in value; the zeros of both signs are. -/
def same (x y : Binary64) : Bool :=
  (x.negative == y.negative && x.mantissa == y.mantissa && x.exponent == y.exponent)
    || (x.isZero && y.isZero)

instance : BEq Binary64 := ⟨same⟩

/-- `2 ^ e` for a positive `e`, and else one. -/
def twoPow (e : Int) : Nat := Nat.pow 2 e.toNat

/-- A quotient rounded to the nearest natural number, halves to the even one. -/
def roundDiv (num den : Nat) : Nat :=
  let q := num / den
  let twice := 2 * (num % den)
  if twice < den ∨ (twice = den ∧ q % 2 = 0) then q else q + 1

/-- The exponent at which the ratio of two positive numbers has a mantissa of fifty-three bits, but
none below the least one. -/
def exponentOf (num den : Nat) : Int :=
  let e : Int := (num.log2 : Int) - den.log2 - 53
  let e := if mantissaEnd * (den * twoPow e) ≤ num * twoPow (-e) then e + 1 else e
  max e minExponent

/-- **The nearest number to a ratio**, unless the ratio exceeds the range. -/
def round (negative : Bool) (num den : Nat) : Option Binary64 :=
  if num = 0 then some (zero negative)
  else
    let e := exponentOf num den
    let m := roundDiv (num * twoPow (-e)) (den * twoPow e)
    let carried := m = mantissaEnd
    let e := if carried then e + 1 else e
    if maxExponent < e then none else some ⟨negative, if carried then leastFull else m, e⟩

/-- The nearest number to a natural number, zero where that exceeds the range. -/
def ofNat (n : Nat) : Binary64 := (round false n 1).getD (zero false)

/-- The numerator and the denominator of the absolute value. -/
def ratio (x : Binary64) : Nat × Nat := (x.mantissa * twoPow x.exponent, twoPow (-x.exponent))

/-- The product, unless it exceeds the range. -/
def mul (x y : Binary64) : Option Binary64 :=
  round (x.negative != y.negative) (x.ratio.1 * y.ratio.1) (x.ratio.2 * y.ratio.2)

/-- The quotient by a number other than zero, unless it exceeds the range. -/
def div (x y : Binary64) : Option Binary64 :=
  round (x.negative != y.negative) (x.ratio.1 * y.ratio.2) (x.ratio.2 * y.ratio.1)

/-- The nearest number to `10 ^ n`, zero where that exceeds the range. -/
def tenPow (n : Nat) : Binary64 := ofNat (Nat.pow 10 n)

/-- The greatest power of ten in range, which is the `tableEnd`-th. -/
def tableEnd : Nat := 308

end Binary64

end WalletApi
