import GraphRequest.Number.Binary64

/-!
# The shortest decimal that reads back

Among the decimals that round to a given binary64 number there are some with fewest digits, and
among those one is nearest to the number; that one is written.

A number owns an interval of the reals, the halves of the gaps to its two neighbours, ends
included when its mantissa is even (a tie goes to the even mantissa).  If a decimal grid has a
point in the interval then the grid point just below the number or the one just above it is in
the interval, so it is enough to test those two on the grids of 1, 2, … 17 digits.  All tests are
comparisons of naturals.

* `Binary64.shortest` — the digits and their exponent;
* `Binary64.text` — how they are written: positionally from `10 ^ (-5)` up to below `10 ^ 16`,
  with an exponent outside.
-/

namespace GraphRequest

/-- A nonnegative decimal, `digits · 10 ^ exponent`. -/
structure Decimal where
  digits : Nat
  exponent : Int
deriving DecidableEq

namespace Binary64

/-- A multiple `quarters / 4` of the number's own unit, seen on the grid of the multiples of
    `10 ^ grid`: numerator and denominator of the quotient. -/
def onGrid (x : Binary64) (grid : Int) (quarters : Nat) : Nat × Nat :=
  (quarters * Nat.pow 2 x.scale * Nat.pow 10 (-grid).toNat,
    Nat.pow 2 1076 * Nat.pow 10 grid.toNat)

/-- Whether the point `n · 10 ^ grid` rounds to the magnitude of the number.  The gap below a
    power of two is half as wide as the gap above it. -/
def owns (x : Binary64) (grid : Int) (n : Nat) : Bool :=
  let below := if x.mantissa == Nat.pow 2 52 && x.scale != 0 then 1 else 2
  let (low, den) := x.onGrid grid (4 * x.mantissa - below)
  let (high, _) := x.onGrid grid (4 * x.mantissa + 2)
  if x.mantissa % 2 == 0 then low ≤ n * den && n * den ≤ high
  else low < n * den && n * den < high

/-- The point of a grid that rounds to the number, the nearer one if there are two. -/
def nearestOwned (x : Binary64) (grid : Int) : Option Nat :=
  let (num, den) := x.onGrid grid (4 * x.mantissa)
  let near := roundHalfEven num den
  let far := if near = num / den then near + 1 else num / den
  [near, far].find? (x.owns grid)

/-- The exponent of the leading digit of a positive number. -/
def leadingExponent (x : Binary64) : Int :=
  let num := x.mantissa * Nat.pow 2 x.scale
  let den := Nat.pow 2 1074
  if den ≤ num then (decimalWidth (num / den) : Int) - 1
  else -(decimalWidth ((den - 1) / num) : Int)

/-- The shortest decimal that rounds to the magnitude of the number, and of those the nearest. -/
def shortest (x : Binary64) : Decimal :=
  if x.rank = 0 then ⟨0, 0⟩
  else
    let lead := x.leadingExponent
    let found := (List.range 17).findSome? fun (more : Nat) =>
      (x.nearestOwned (lead - more)).map fun n => Decimal.mk n (lead - more)
    found.getD ⟨0, 0⟩

/-- Digits written positionally; `point` of them stand before the point.  There is always a
    point, with a digit on either side. -/
def positional (digits : List Char) (point : Int) : List Char :=
  if point ≤ 0 then '0' :: '.' :: List.replicate (-point).toNat '0' ++ digits
  else if digits.length ≤ point.toNat then
    digits ++ List.replicate (point.toNat - digits.length) '0' ++ ['.', '0']
  else digits.take point.toNat ++ '.' :: digits.drop point.toNat

/-- Digits with one before the point and an exponent; the point is left out when nothing follows
    it. -/
def scientific (digits : List Char) (exponent : Int) : List Char :=
  let sign := if exponent < 0 then '-' else '+'
  digits.take 1 ++ (if digits.length ≤ 1 then [] else '.' :: digits.drop 1) ++
    'e' :: sign :: Nat.toDigits 10 exponent.natAbs

/-- The text of a number. -/
def text (x : Binary64) : String :=
  let decimal := x.shortest
  let written := Nat.toDigits 10 decimal.digits
  let digits := (written.take 1) ++ ((written.drop 1).reverse.dropWhile (· == '0')).reverse
  let lead := decimal.exponent + written.length - 1
  let magnitude :=
    if -5 ≤ lead && lead ≤ 15 then positional digits (lead + 1) else scientific digits lead
  String.ofList (if x.negative then '-' :: magnitude else magnitude)

end Binary64

end GraphRequest
