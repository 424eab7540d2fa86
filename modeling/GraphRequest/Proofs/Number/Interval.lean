import GraphRequest.Number.Shortest
import Mathlib.Algebra.Order.Field.Power
import Mathlib.Data.Rat.Cast.Order
import Mathlib.Order.Monotone.Basic
import Mathlib.Tactic.FieldSimp
import Mathlib.Tactic.Lemma
import Mathlib.Tactic.Linarith
import Mathlib.Tactic.NormNum
import Mathlib.Tactic.Positivity
import Mathlib.Tactic.Ring

/-!
# What a number owns

Shortest digits are found by a search that could come back with nothing, and what it finds could
round to two numbers.  Neither happens, and both follow from where the intervals of the numbers
lie.  All ends are measured in quarters of the least positive number, where they are whole.

* `Binary64.topAt_lt_succ`, `Binary64.bottom_eq` — the intervals lie one behind the other without
  gaps: one begins where the one of the rank before ends.
* `Binary64.rank_eq_of_owns` — hence a decimal rounds to the magnitude of one number at most.  Where
  two intervals meet the end belongs to one of them, since neighbours differ in the parity of their
  mantissas.
* `Binary64.owns_nearest` — the grid that gives a number 17 digits is finer than its interval.
* **`Binary64.owns_shortest`** — hence the search finds something, and what it finds is owned.
-/

namespace GraphRequest

/-- The value of a decimal. -/
def Decimal.value (decimal : Decimal) : ℚ :=
  decimal.digits * 10 ^ decimal.exponent

/-- Rounding is off by half of the denominator at most. -/
lemma roundHalfEven_bounds (num : ℕ) {den : ℕ} (h : 0 < den) :
    2 * num ≤ 2 * (roundHalfEven num den * den) + den
      ∧ 2 * (roundHalfEven num den * den) ≤ 2 * num + den := by
  have hsplit := Nat.div_add_mod' num den
  have hless := Nat.mod_lt num h
  unfold roundHalfEven
  dsimp only
  split
  · rename_i hup
    have hhalf : den ≤ 2 * (num % den) := by
      simp only [Bool.or_eq_true, decide_eq_true_eq, Bool.and_eq_true, beq_iff_eq] at hup
      omega
    have hmore : (num / den + 1) * den = num / den * den + den := Nat.add_one_mul _ _
    omega
  · rename_i hdown
    have hhalf : 2 * (num % den) ≤ den := by
      simp only [Bool.or_eq_true, decide_eq_true_eq, not_or] at hdown
      omega
    omega

lemma lt_pow_decimalWidth (n : ℕ) : n < 10 ^ decimalWidth n :=
  (Nat.length_toDigits_le_iff (by decide) Nat.length_toDigits_pos).mp le_rfl

lemma pow_decimalWidth_le {n : ℕ} (h : 0 < n) : 10 ^ (decimalWidth n - 1) ≤ n := by
  cases hwidth : decimalWidth n - 1 with
  | zero => exact h
  | succ width =>
      refine Nat.le_of_not_lt fun hless => ?_
      have hlength := (Nat.length_toDigits_le_iff (by decide) (Nat.succ_pos width)).mpr hless
      rw [← decimalWidth] at hlength
      omega

/-- A power of ten as a quotient of two whole ones. -/
lemma ten_zpow_eq_div (grid : ℤ) : (10 : ℚ) ^ grid = 10 ^ grid.toNat / 10 ^ (-grid).toNat := by
  rcases Int.eq_nat_or_neg grid with ⟨n, rfl | rfl⟩ <;> simp

namespace Binary64

/-! ## The intervals, by rank -/

/-- The scale of the numbers of a rank. -/
def scaleAt (rank : ℕ) : ℕ :=
  rank / 2 ^ 52 - 1

/-- The mantissa of the numbers of a rank. -/
def mantissaAt (rank : ℕ) : ℕ :=
  rank - scaleAt rank * 2 ^ 52

/-- The upper end of the interval of a rank, in quarters of the least positive number. -/
def topAt (rank : ℕ) : ℕ :=
  (4 * mantissaAt rank + 2) * 2 ^ scaleAt rank

/-- How far below the number its interval begins, in quarters of its own unit. -/
def reach (x : Binary64) : ℕ :=
  if x.mantissa == Nat.pow 2 52 && x.scale != 0 then 1 else 2

/-- The lower end of the interval, in quarters of the least positive number. -/
def bottom (x : Binary64) : ℕ :=
  (4 * x.mantissa - x.reach) * 2 ^ x.scale

/-- The upper end. -/
def top (x : Binary64) : ℕ :=
  (4 * x.mantissa + 2) * 2 ^ x.scale

lemma top_eq (x : Binary64) : x.top = topAt x.rank := rfl

lemma mantissa_eq (x : Binary64) : x.mantissa = mantissaAt x.rank := rfl

lemma scale_eq (x : Binary64) : x.scale = scaleAt x.rank := rfl

/-- From one rank to the next the mantissa grows by one, or falls back to half of what it would
    become and is doubled once more. -/
lemma mantissaAt_succ (rank : ℕ) :
    (scaleAt (rank + 1) = scaleAt rank ∧ mantissaAt (rank + 1) = mantissaAt rank + 1
        ∧ (mantissaAt (rank + 1) = 2 ^ 52 → scaleAt rank = 0))
      ∨ (scaleAt (rank + 1) = scaleAt rank + 1 ∧ mantissaAt (rank + 1) = 2 ^ 52
        ∧ mantissaAt rank + 1 = 2 ^ 53) := by
  simp only [mantissaAt, scaleAt]
  omega

lemma mantissaAt_lt (rank : ℕ) : mantissaAt rank < 2 ^ 53 := by
  simp only [mantissaAt, scaleAt]
  omega

lemma mantissaAt_pos {rank : ℕ} (h : rank ≠ 0) : 0 < mantissaAt rank := by
  simp only [mantissaAt, scaleAt]
  omega

/-- Ranks and mantissas have the same parity. -/
lemma mantissaAt_mod_two (rank : ℕ) : mantissaAt rank % 2 = rank % 2 := by
  simp only [mantissaAt, scaleAt]
  omega

/-- Intervals end one after the other. -/
lemma topAt_lt_succ (rank : ℕ) : topAt rank < topAt (rank + 1) := by
  simp only [topAt]
  rcases mantissaAt_succ rank with ⟨hscale, hmantissa, -⟩ | ⟨hscale, hmantissa, hlast⟩
  · rw [hscale, hmantissa]
    exact Nat.mul_lt_mul_of_pos_right (by omega) (Nat.two_pow_pos _)
  · have hends : 4 * mantissaAt rank + 2 < (4 * 2 ^ 52 + 2) * 2 := by omega
    rw [hscale, hmantissa, pow_succ' 2 (scaleAt rank), ← Nat.mul_assoc]
    exact Nat.mul_lt_mul_of_pos_right hends (Nat.two_pow_pos _)

lemma topAt_strictMono : StrictMono topAt :=
  strictMono_nat_of_lt_succ topAt_lt_succ

/-- An interval begins where the one before it ends. -/
lemma bottom_eq {x : Binary64} {rank : ℕ} (h : x.rank = rank + 1) : x.bottom = topAt rank := by
  have hreach : x.reach = if mantissaAt (rank + 1) = 2 ^ 52 ∧ scaleAt (rank + 1) ≠ 0 then 1
      else 2 := by
    simp [reach, mantissa_eq, scale_eq, h]
  rw [bottom, topAt, hreach, mantissa_eq, scale_eq, h]
  rcases mantissaAt_succ rank with ⟨hscale, hmantissa, hfirst⟩ | ⟨hscale, hmantissa, hlast⟩
  · have hends : 4 * (mantissaAt rank + 1) - 2 = 4 * mantissaAt rank + 2 := by omega
    rw [if_neg (by rw [hscale]; exact fun hboth => hboth.2 (hfirst hboth.1)), hscale, hmantissa,
      hends]
  · have hends : (4 * 2 ^ 52 - 1) * 2 = 4 * mantissaAt rank + 2 := by omega
    rw [if_pos ⟨hmantissa, by omega⟩, hscale, hmantissa, pow_succ' 2 (scaleAt rank),
      ← Nat.mul_assoc, hends]

/-! ## Owning a decimal -/

/-- How many times the least positive number makes one. -/
def ones : ℕ :=
  Nat.pow 2 1074

/-- How many quarters of the least positive number make one. -/
def quarters : ℕ :=
  Nat.pow 2 1076

lemma ones_pos : 0 < ones := by
  unfold ones
  generalize 1074 = exponent
  exact Nat.two_pow_pos exponent

lemma quarters_eq : quarters = 4 * ones := by
  unfold quarters ones
  generalize hexponent : 1074 = exponent
  have hmore : 1076 = exponent + 2 := by omega
  rw [hmore]
  exact Nat.pow_add' 2 exponent 2

lemma onGrid_eq (x : Binary64) (grid : ℤ) (multiple : ℕ) :
    x.onGrid grid multiple
      = (multiple * 2 ^ x.scale * 10 ^ (-grid).toNat, quarters * 10 ^ grid.toNat) := by
  unfold onGrid quarters
  generalize Nat.pow 2 1076 = unit
  rfl

/-- A point of a grid is the same quotient. -/
lemma value_mul_quarters (grid : ℤ) (n : ℕ) :
    Decimal.value ⟨n, grid⟩ * quarters
      = n * (quarters * 10 ^ grid.toNat) / 10 ^ (-grid).toNat := by
  rw [Decimal.value, ten_zpow_eq_div]
  ring

/-- A whole number of quarters, compared with a point of a grid. -/
lemma le_value_iff (grid : ℤ) (n bound : ℕ) :
    bound * 10 ^ (-grid).toNat ≤ n * (quarters * 10 ^ grid.toNat)
      ↔ (bound : ℚ) ≤ Decimal.value ⟨n, grid⟩ * quarters := by
  rw [value_mul_quarters, le_div_iff₀ (by positivity)]
  exact_mod_cast Iff.rfl

lemma value_le_iff (grid : ℤ) (n bound : ℕ) :
    n * (quarters * 10 ^ grid.toNat) ≤ bound * 10 ^ (-grid).toNat
      ↔ Decimal.value ⟨n, grid⟩ * quarters ≤ bound := by
  rw [value_mul_quarters, div_le_iff₀ (by positivity)]
  exact_mod_cast Iff.rfl

lemma owns_eq (x : Binary64) (grid : ℤ) (n : ℕ) :
    x.owns grid n
      = if x.mantissa % 2 = 0 then
          decide (x.bottom * 10 ^ (-grid).toNat ≤ n * (quarters * 10 ^ grid.toNat))
            && decide (n * (quarters * 10 ^ grid.toNat) ≤ x.top * 10 ^ (-grid).toNat)
        else decide (x.bottom * 10 ^ (-grid).toNat < n * (quarters * 10 ^ grid.toNat))
            && decide (n * (quarters * 10 ^ grid.toNat) < x.top * 10 ^ (-grid).toNat) := by
  simp only [owns, onGrid_eq, beq_iff_eq]
  rfl

/-- A number owns the decimals between its ends; the ends themselves only if its mantissa is
    even. -/
lemma owns_iff (x : Binary64) (grid : ℤ) (n : ℕ) :
    x.owns grid n = true
      ↔ if x.mantissa % 2 = 0 then
          (x.bottom : ℚ) ≤ Decimal.value ⟨n, grid⟩ * quarters
            ∧ Decimal.value ⟨n, grid⟩ * quarters ≤ x.top
        else (x.bottom : ℚ) < Decimal.value ⟨n, grid⟩ * quarters
            ∧ Decimal.value ⟨n, grid⟩ * quarters < x.top := by
  rw [owns_eq]
  split <;> simp only [Bool.and_eq_true, decide_eq_true_eq]
  · rw [le_value_iff, value_le_iff]
  · rw [← not_le, ← not_le, le_value_iff, value_le_iff, not_le, not_le]

/-- What a number owns lies between its ends. -/
lemma bounds_of_owns {x : Binary64} {decimal : Decimal}
    (h : x.owns decimal.exponent decimal.digits = true) :
    (x.bottom : ℚ) ≤ decimal.value * quarters ∧ decimal.value * quarters ≤ x.top := by
  rw [owns_iff] at h
  split at h
  · exact h
  · exact ⟨h.1.le, h.2.le⟩

/-- **A decimal rounds to one magnitude.**  Of two numbers that own decimals of one value neither
    has the greater rank: its interval would begin behind that of the other or, if the ranks are
    neighbours, at an end that belongs to only one of them. -/
theorem rank_le_of_owns {x y : Binary64} {decimal other : Decimal}
    (hvalue : decimal.value = other.value)
    (hx : x.owns decimal.exponent decimal.digits = true)
    (hy : y.owns other.exponent other.digits = true) : y.rank ≤ x.rank := by
  by_contra hless
  obtain ⟨rank, hrank⟩ : ∃ rank, y.rank = rank + 1 := ⟨y.rank - 1, by omega⟩
  have htop := (bounds_of_owns hx).2
  have hbottom := (bounds_of_owns hy).1
  rw [← hvalue, bottom_eq hrank] at hbottom
  have hends : topAt rank ≤ topAt x.rank := by
    rw [← top_eq]
    exact_mod_cast hbottom.trans htop
  obtain rfl : rank = x.rank := by
    have hle := topAt_strictMono.le_iff_le.mp hends
    omega
  have hparity : y.mantissa % 2 ≠ x.mantissa % 2 := by
    rw [mantissa_eq, mantissa_eq, mantissaAt_mod_two, mantissaAt_mod_two, hrank]
    omega
  rw [owns_iff] at hx hy
  rw [← hvalue, bottom_eq hrank] at hy
  rw [top_eq] at hx
  by_cases heven : x.mantissa % 2 = 0
  · rw [if_neg (by omega)] at hy
    exact absurd htop (not_le.mpr hy.1)
  · rw [if_neg heven] at hx
    exact absurd hbottom (not_le.mpr hx.2)

lemma rank_eq_of_owns {x y : Binary64} {decimal other : Decimal}
    (hvalue : decimal.value = other.value)
    (hx : x.owns decimal.exponent decimal.digits = true)
    (hy : y.owns other.exponent other.digits = true) : x.rank = y.rank :=
  le_antisymm (rank_le_of_owns hvalue.symm hy hx) (rank_le_of_owns hvalue hx hy)

/-- A positive number owns only positive decimals. -/
lemma digits_pos_of_owns {x : Binary64} {decimal : Decimal} (hrank : x.rank ≠ 0)
    (h : x.owns decimal.exponent decimal.digits = true) : 0 < decimal.digits := by
  obtain ⟨rank, hsucc⟩ := Nat.exists_eq_succ_of_ne_zero hrank
  have hbottom := (bounds_of_owns h).1
  have hpos : 0 < topAt rank := Nat.mul_pos (by omega) (Nat.two_pow_pos _)
  rw [bottom_eq hsucc] at hbottom
  refine Nat.pos_of_ne_zero fun hzero => ?_
  rw [Decimal.value, hzero] at hbottom
  simp only [Nat.cast_zero, zero_mul, Nat.cast_nonpos] at hbottom
  omega

/-! ## The search -/

/-- The magnitude, in units of the least positive number. -/
def units (x : Binary64) : ℕ :=
  x.mantissa * 2 ^ x.scale

lemma units_pos {x : Binary64} (h : x.rank ≠ 0) : 0 < x.units :=
  Nat.mul_pos (mantissaAt_pos h) (Nat.two_pow_pos _)

lemma leadingExponent_eq (x : Binary64) :
    x.leadingExponent
      = if ones ≤ x.units then (decimalWidth (x.units / ones) : ℤ) - 1
        else -(decimalWidth ((ones - 1) / x.units) : ℤ) := by
  unfold leadingExponent ones units
  generalize Nat.pow 2 1074 = unit
  rfl

/-- The leading digit of a number stands where it is said to stand, or before. -/
lemma ten_zpow_leadingExponent_le {x : Binary64} (h : x.rank ≠ 0) :
    (10 : ℚ) ^ x.leadingExponent * ones ≤ x.units := by
  rw [leadingExponent_eq]
  split
  · rename_i hle
    have hquotient : 0 < x.units / ones := Nat.div_pos hle ones_pos
    obtain ⟨width, hwidth⟩ : ∃ width, decimalWidth (x.units / ones) = width + 1 :=
      Nat.exists_eq_succ_of_ne_zero (Nat.ne_of_gt Nat.length_toDigits_pos)
    have hpow := pow_decimalWidth_le hquotient
    rw [hwidth, Nat.add_sub_cancel, Nat.le_div_iff_mul_le ones_pos] at hpow
    rw [hwidth, Nat.cast_succ, add_sub_cancel_right, zpow_natCast]
    exact_mod_cast hpow
  · have hpow := lt_pow_decimalWidth ((ones - 1) / x.units)
    rw [Nat.div_lt_iff_lt_mul (units_pos h)] at hpow
    have hones := ones_pos
    have hle : ones ≤ x.units * 10 ^ decimalWidth ((ones - 1) / x.units) := by
      rw [Nat.mul_comm]
      omega
    rw [zpow_neg, zpow_natCast, inv_mul_le_iff₀ (by positivity), mul_comm]
    exact_mod_cast hle

lemma two_mul_mantissa_lt (x : Binary64) : 2 * x.mantissa < x.reach * 10 ^ 16 := by
  have hless := mantissaAt_lt x.rank
  rw [← mantissa_eq] at hless
  rw [reach]
  split
  · rename_i hfirst
    simp only [Bool.and_eq_true, beq_iff_eq, Nat.pow_eq] at hfirst
    omega
  · omega

/-- The grid of 17 digits is finer than the interval. -/
lemma grid_lt {x : Binary64} (h : x.rank ≠ 0) {grid : ℤ} (hgrid : grid = x.leadingExponent - 16) :
    quarters * 10 ^ grid.toNat < 2 * x.reach * 2 ^ x.scale * 10 ^ (-grid).toNat := by
  have hfine : Decimal.value ⟨1, grid⟩ * quarters < (2 * x.reach * 2 ^ x.scale : ℕ) := by
    have hlead := ten_zpow_leadingExponent_le h
    have hmantissa : ((2 * x.mantissa : ℕ) : ℚ) < (x.reach * 10 ^ 16 : ℕ) :=
      Nat.cast_lt.mpr (two_mul_mantissa_lt x)
    have hscale : (0 : ℚ) < 2 ^ x.scale := by positivity
    calc Decimal.value ⟨1, grid⟩ * quarters
        = 4 * (10 ^ x.leadingExponent * ones) / 10 ^ 16 := by
          rw [Decimal.value, hgrid, quarters_eq, zpow_sub₀ (by norm_num), zpow_ofNat]
          push_cast
          ring
      _ ≤ 4 * x.units / 10 ^ 16 := by gcongr
      _ = 2 * 2 ^ x.scale * ((2 * x.mantissa : ℕ) / 10 ^ 16) := by
          rw [units]
          push_cast
          ring
      _ < 2 * 2 ^ x.scale * x.reach := by
          gcongr
          rw [div_lt_iff₀ (by positivity)]
          exact_mod_cast hmantissa
      _ = (2 * x.reach * 2 ^ x.scale : ℕ) := by
          push_cast
          ring
  rw [← not_le, ← le_value_iff, not_le, one_mul] at hfine
  exact hfine

/-- **The point of that grid that is nearest to a number is its own**, and is so by far: it is off
    by half of the grid at most. -/
lemma owns_nearest {x : Binary64} (h : x.rank ≠ 0) {grid : ℤ}
    (hgrid : grid = x.leadingExponent - 16) :
    x.owns grid (roundHalfEven (4 * x.mantissa * 2 ^ x.scale * 10 ^ (-grid).toNat)
      (quarters * 10 ^ grid.toNat)) = true := by
  have hfine := grid_lt h hgrid
  have hden : 0 < quarters * 10 ^ grid.toNat :=
    Nat.mul_pos (quarters_eq ▸ Nat.mul_pos (by decide) ones_pos) (by positivity)
  obtain ⟨hlow, hhigh⟩ :=
    roundHalfEven_bounds (4 * x.mantissa * 2 ^ x.scale * 10 ^ (-grid).toNat) hden
  have hreach : x.reach ≤ 2 := by
    rw [reach]
    split <;> decide
  have hmantissa := mantissaAt_pos h
  rw [← mantissa_eq] at hmantissa
  rw [owns_eq, bottom, top]
  generalize roundHalfEven _ _ * _ = point at *
  generalize quarters * 10 ^ grid.toNat = den at *
  rw [Nat.mul_assoc] at hlow hhigh hfine
  rw [Nat.mul_assoc, Nat.mul_assoc]
  generalize 2 ^ x.scale * 10 ^ (-grid).toNat = unit at *
  have hbottom : (4 * x.mantissa - x.reach) * unit = 4 * x.mantissa * unit - x.reach * unit :=
    Nat.sub_mul _ _ _
  have htop : (4 * x.mantissa + 2) * unit = 4 * x.mantissa * unit + 2 * unit := Nat.add_mul _ _ _
  have hwide : x.reach * unit ≤ 2 * unit := Nat.mul_le_mul_right _ hreach
  have hfit : x.reach * unit ≤ 4 * x.mantissa * unit := Nat.mul_le_mul_right _ (by omega)
  rw [Nat.mul_assoc] at hfine
  have hlow' : (4 * x.mantissa - x.reach) * unit < point := by omega
  have hhigh' : point < (4 * x.mantissa + 2) * unit := by omega
  split
  · simp [hlow'.le, hhigh'.le]
  · simp [hlow', hhigh']

lemma owns_of_nearestOwned {x : Binary64} {grid : ℤ} {n : ℕ} (h : x.nearestOwned grid = some n) :
    x.owns grid n = true :=
  List.find?_some h

lemma nearestOwned_ne_none {x : Binary64} (h : x.rank ≠ 0) :
    x.nearestOwned (x.leadingExponent - 16) ≠ none := by
  have hnear := owns_nearest h rfl
  rw [nearestOwned, onGrid_eq]
  dsimp only
  rw [List.find?_cons_of_pos hnear]
  exact Option.some_ne_none _

/-- **The search finds a decimal, and one that is owned.** -/
theorem owns_shortest {x : Binary64} (h : x.rank ≠ 0) :
    x.owns x.shortest.exponent x.shortest.digits = true := by
  let found := (List.range 17).findSome? fun (more : ℕ) =>
    (x.nearestOwned (x.leadingExponent - more)).map fun n =>
      Decimal.mk n (x.leadingExponent - more)
  have hshortest : x.shortest = found.getD ⟨0, 0⟩ := by
    rw [shortest, if_neg h]
  cases hfound : found with
  | none =>
      have hlast := List.findSome?_eq_none_iff.mp hfound 16 (by decide)
      rw [Option.map_eq_none_iff] at hlast
      exact absurd hlast (nearestOwned_ne_none h)
  | some decimal =>
      obtain ⟨more, -, hmore⟩ := List.exists_of_findSome?_eq_some hfound
      obtain ⟨n, hn, rfl⟩ := Option.map_eq_some_iff.mp hmore
      rw [hshortest, hfound]
      exact owns_of_nearestOwned hn

end Binary64

end GraphRequest
