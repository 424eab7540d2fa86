/-!
# Finite binary64 numbers, exactly

A value of a JSON text that is not an integer is a 64-bit binary floating point number.  Values
are only read, compared and written here, so no arithmetic on them is needed, and the type can be
exact: a number is its sign and the **rank** of its magnitude, the place of the magnitude in the
increasing list of all finite ones.  Zero has rank 0, the least positive number rank 1, and so on
without gaps up to `Binary64.ranks`; infinities and not-a-number have no rank and no value.

Every magnitude is `mantissa · 2 ^ scale / 2 ^ 1074`, and both factors are read off the rank.

* `Binary64.ofDecimal` — the nearest number to a decimal, ties to the even mantissa, all in exact
  arithmetic on naturals.
-/

namespace GraphRequest

/-- The quotient of two naturals rounded to the nearest natural, and to the even one of two
    equally near. -/
def roundHalfEven (num den : Nat) : Nat :=
  let quotient := num / den
  let twice := 2 * (num % den)
  if den < twice || (twice == den && quotient % 2 == 1) then quotient + 1 else quotient

/-- How many decimal digits a natural has; zero has one. -/
def decimalWidth (n : Nat) : Nat :=
  (Nat.toDigits 10 n).length

/-- The number of finite magnitudes. -/
def Binary64.ranks : Nat := 2047 * Nat.pow 2 52

/-- A finite binary64 number. -/
structure Binary64 where
  /-- Zero has a sign too. -/
  negative : Bool
  /-- How many magnitudes are smaller. -/
  rank : Nat
  finite : rank < Binary64.ranks
deriving DecidableEq

namespace Binary64

/-- Zero, with either sign. -/
def zero (negative : Bool) : Binary64 :=
  ⟨negative, 0, by decide⟩

/-- How often the mantissa is doubled, starting from units of the least positive number. -/
def scale (x : Binary64) : Nat :=
  x.rank / Nat.pow 2 52 - 1

/-- The mantissa: below `2 ^ 53`, and at least `2 ^ 52` unless the scale is 0. -/
def mantissa (x : Binary64) : Nat :=
  x.rank - x.scale * Nat.pow 2 52

/-- Equality of values: the two zeros are equal. -/
def agrees (x y : Binary64) : Bool :=
  x.rank == y.rank && (x.negative == y.negative || x.rank == 0)

/-- The rank of the magnitude nearest to a quotient, were there no greatest one.

    The quotient is first cut to whole units of the least positive number, which gives the scale;
    the mantissa is then rounded once.  A mantissa rounded up to `2 ^ 53` needs no care: it has
    the rank of `2 ^ 52` at the next scale. -/
def nearestRank (num den : Nat) : Nat :=
  let units := num * Nat.pow 2 1074
  let scale := (units / den).log2 - 52
  scale * Nat.pow 2 52 + roundHalfEven units (den * Nat.pow 2 scale)

/-- The number nearest to a quotient, if there is a finite one. -/
def ofQuotient (negative : Bool) (num den : Nat) : Option Binary64 :=
  let rank := nearestRank num den
  if h : rank < ranks then some ⟨negative, rank, h⟩ else none

/-- The number nearest to `digits · 10 ^ exponent`, if there is a finite one.

    A magnitude of `10 ^ 310` and above has none, and one below `10 ^ (-330)` is nearest to zero;
    both are settled by the width alone, so that a long exponent costs nothing. -/
def ofDecimal (negative : Bool) (digits : Nat) (exponent : Int) : Option Binary64 :=
  let width := decimalWidth digits + exponent
  if digits = 0 || width < -330 then some (zero negative)
  else if 310 < width then none
  else ofQuotient negative (digits * Nat.pow 10 exponent.toNat)
    (Nat.pow 10 (-exponent).toNat)

end Binary64

end GraphRequest
