import WalletApi.Curve.Modular

/-!
# The curve secp256k1

The points of `y² = x³ + 7` over the integers modulo a prime, with a point at infinity, form a group
of prime order under the chord and tangent construction. A point carries the proof that it lies on
the curve, and so does every point that `Point.add` makes: it looks at the coordinates that the
construction gives and keeps them when they solve the equation of the curve, which they always do.
-/

namespace WalletApi

/-- The prime of the field of coordinates. -/
def fieldPrime : Nat := Nat.pow 2 256 - Nat.pow 2 32 - 977

/-- The number of points, which is the order of the base point. -/
def groupOrder : Nat := 0xfffffffffffffffffffffffffffffffebaaedce6af48a03bbfd25e8cd0364141

/-- Two coordinates below the prime solve the equation of the curve. -/
def OnCurve (x y : Nat) : Prop :=
  x < fieldPrime ∧ y < fieldPrime ∧ y * y % fieldPrime = (x * x * x + 7) % fieldPrime

instance (x y : Nat) : Decidable (OnCurve x y) := by unfold OnCurve; infer_instance

/-- **A point of the curve.** -/
inductive Point
  | infinity
  | affine (x y : Nat) (onCurve : OnCurve x y)
deriving DecidableEq

namespace Point

/-- The point with given coordinates, infinity when they are off the curve. -/
def ofCoordinates (x y : Nat) : Point := if h : OnCurve x y then .affine x y h else .infinity

/-- The third point on the line of slope `m` through two points with abscissas `x₁` and `x₂`, turned
over; `y₁` belongs to `x₁`. -/
def thirdPoint (m x₁ y₁ x₂ : Nat) : Point :=
  let x₃ := Modular.sub fieldPrime (m * m) ((x₁ + x₂) % fieldPrime)
  let y₃ := Modular.sub fieldPrime (m * Modular.sub fieldPrime x₁ x₃) y₁
  ofCoordinates x₃ y₃

/-- The sum of two points. Points over the same abscissa are either equal, and then the tangent
takes the place of the chord, or opposite. -/
def add : Point → Point → Point
  | .infinity, q => q
  | p, .infinity => p
  | .affine x₁ y₁ _, .affine x₂ y₂ _ =>
    if x₁ = x₂ then
      if (y₁ + y₂) % fieldPrime = 0 then .infinity
      else
        thirdPoint (3 * x₁ * x₁ * Modular.inverse fieldPrime (2 * y₁) % fieldPrime) x₁ y₁ x₂
    else
      let run := Modular.inverse fieldPrime (Modular.sub fieldPrime x₂ x₁)
      thirdPoint (Modular.sub fieldPrime y₂ y₁ * run % fieldPrime) x₁ y₁ x₂

/-- The point on the other side of the axis. -/
def neg : Point → Point
  | .infinity => .infinity
  | .affine x y _ => ofCoordinates x ((fieldPrime - y) % fieldPrime)

/-- The sum of `n` copies of a point, by repeated doubling. -/
def smul (n : Nat) (p : Point) : Point :=
  if n = 0 then .infinity
  else
    let h := smul (n / 2) (p.add p)
    if n % 2 = 1 then h.add p else h
termination_by n
decreasing_by omega

/-- The abscissa of the base point. -/
def generatorX : Nat := 0x79be667ef9dcbbac55a06295ce870b07029bfcdb2dce28d959f2815b16f81798

/-- The ordinate of the base point. -/
def generatorY : Nat := 0x483ada7726a3c4655da4fbfc0e1108a8fd17b448a68554199c47d08ffb10d4b8

theorem onCurve_generator : OnCurve generatorX generatorY := by decide

/-- The base point. -/
def generator : Point := .affine generatorX generatorY onCurve_generator

/-- The point over an abscissa whose ordinate is odd or even as asked, if the curve has one. The
prime leaves the remainder three modulo four, so a square has the power of exponent
`(fieldPrime + 1) / 4` as its root. -/
def lift? (x : Nat) (odd : Bool) : Option Point :=
  let root := Modular.pow fieldPrime ((x * x * x + 7) % fieldPrime) ((fieldPrime + 1) / 4)
  let y := if (root % 2 == 1) == odd then root else (fieldPrime - root) % fieldPrime
  if h : OnCurve x y then some (.affine x y h) else none

end Point

end WalletApi
