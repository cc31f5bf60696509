import WalletApi.Decimal.Binary64

/-!
# The shortest decimal of a number

Every decimal close enough to a number in double precision rounds to it. The shortest of these is
the one on the coarsest decimal grid that has any, and on that grid the nearest to the number. Both
texts of this module write that decimal: one turns to an exponent for large and small numbers, the
other never does.
-/

namespace WalletApi.Binary64

/-- `10 ^ k` for a positive `k`, and else one. -/
def tenPowNat (k : Int) : Nat := Nat.pow 10 k.toNat

/-- The multiple of `10 ^ k` that is nearest to a number, if any rounds to that number. The number
and the ends of the interval that rounds to it are counted in quarters of the mantissa's last place,
and both sides are scaled to be whole. -/
def onGrid? (x : Binary64) (k : Int) : Option Nat :=
  let grid := tenPowNat k * twoPow (2 - x.exponent)
  let unit := tenPowNat (-k) * twoPow (x.exponent - 2)
  let value := 4 * x.mantissa * unit
  let low := (if x.mantissa = leastFull ∧ minExponent < x.exponent then 4 * x.mantissa - 1
    else 4 * x.mantissa - 2) * unit
  let high := (4 * x.mantissa + 2) * unit
  let closed := x.mantissa % 2 = 0
  let inside (d : Nat) : Bool :=
    if closed then low ≤ d * grid && d * grid ≤ high else low < d * grid && d * grid < high
  let below := value / grid
  let above := below + 1
  match inside below, inside above with
  | false, false => none
  | true, false => some below
  | false, true => some above
  | true, true =>
    let down := value - below * grid
    let up := above * grid - value
    if down < up ∨ (down = up ∧ below % 2 = 0) then some below else some above

/-- The first grid, from that of `10 ^ k` on, that has a decimal for the number. -/
def searchGrid (x : Binary64) : Nat → Int → Nat × Int
  | 0, k => (0, k)
  | fuel + 1, k =>
    match onGrid? x k with
    | some d => if d = 0 then searchGrid x fuel (k - 1) else (d, k)
    | none => searchGrid x fuel (k - 1)

/-- The shortest decimal of the absolute value, as `d * 10 ^ k`. The search starts above the
number's first digit and ends at its seventeenth. -/
def shortest (x : Binary64) : Nat × Int :=
  if x.mantissa = 0 then (0, 0)
  else
    let bits : Int := x.mantissa.log2 + x.exponent
    searchGrid x 24 (bits * 30103 / 100000 + 2)

/-- A minus sign for negative numbers. -/
def signText (x : Binary64) : List Char := if x.negative then ['-'] else []

/-- Digits with a decimal point after the first `point` of them, and zeros where there are none. -/
def positional (digits : List Char) (point : Int) : List Char :=
  if point ≤ 0 then '0' :: '.' :: (List.replicate (-point).toNat '0' ++ digits)
  else if digits.length ≤ point.toNat then
    digits ++ List.replicate (point.toNat - digits.length) '0' ++ ['.', '0']
  else digits.take point.toNat ++ '.' :: digits.drop point.toNat

/-- **The text with an exponent for large and small numbers**: positional from `10 ^ (-5)` to below
`10 ^ 16`, always with a digit after the point, and else one digit, a point if more follow, and an
exponent with its sign. -/
def exponentText (x : Binary64) : String :=
  if x.isZero then String.ofList (x.signText ++ ['0', '.', '0'])
  else
    let (d, k) := x.shortest
    let digits := (toString d).toList
    let point : Int := digits.length + k
    let body :=
      if -5 < point ∧ point ≤ 16 then positional digits point
      else
        let tail := digits.drop 1
        let exponent := point - 1
        digits.take 1 ++ (if tail = [] then [] else '.' :: tail)
          ++ 'e' :: (if exponent < 0 then '-' else '+') :: (toString exponent.natAbs).toList
    String.ofList (x.signText ++ body)

/-- **The text without an exponent**, and without a point when the number is whole. -/
def plainText (x : Binary64) : String :=
  if x.isZero then String.ofList (x.signText ++ ['0'])
  else
    let (d, k) := x.shortest
    let digits := (toString d).toList
    let body :=
      if 0 ≤ k then digits ++ List.replicate k.toNat '0' else positional digits (digits.length + k)
    String.ofList (x.signText ++ body)

end WalletApi.Binary64
