import GraphRequest.Proofs.Number.Interval
import GraphRequest.Proofs.Token.Reading
import Mathlib.Algebra.Field.Basic

/-!
# The text of a number tells the number

A decimal text has digits, a point among them or not, and an exponent or none.  It is read back
here in one way for both notations.

* `decimalValue` — the value of a decimal text.
* `decimalValue_positional`, `decimalValue_scientific` — both notations have the value of the digits
  they are made of; zeros and the point do not count.
* `Binary64.decimalValue_magnitude` — the text of a magnitude has the value of its shortest digits,
  although zeros at their end are not written.
* **`Binary64.text_injective`** — a decimal rounds to one number, so the texts of different numbers
  differ.
-/

namespace GraphRequest

/-! ## The value of a decimal text -/

/-- The value of an exponent, with the letter in front of it. -/
def exponentValue : List Char → ℤ
  | [] => 0
  | [_] => 0
  | _ :: sign :: digits =>
    if sign = '-' then -(Nat.ofDigitChars 10 digits 0 : ℤ) else Nat.ofDigitChars 10 digits 0

@[simp] lemma exponentValue_nil : exponentValue [] = 0 := rfl

/-- The value of a decimal text without a sign. -/
def decimalValue (text : List Char) : ℚ :=
  let mantissa := text.takeWhile (· != 'e')
  let whole := mantissa.takeWhile (· != '.')
  let fraction := (mantissa.dropWhile (· != '.')).drop 1
  Nat.ofDigitChars 10 (whole ++ fraction) 0
    * 10 ^ (exponentValue (text.dropWhile (· != 'e')) - fraction.length)

/-- That a list holds digits only. -/
def AllDigits (cs : List Char) : Prop :=
  ∀ c ∈ cs, c.isDigit = true

lemma AllDigits.append {front back : List Char} (hfront : AllDigits front)
    (hback : AllDigits back) : AllDigits (front ++ back) :=
  List.forall_mem_append.mpr ⟨hfront, hback⟩

lemma allDigits_replicate (n : ℕ) : AllDigits (List.replicate n '0') := by
  intro c hc
  rw [List.eq_of_mem_replicate hc]
  rfl

lemma allDigits_toDigits (n : ℕ) : AllDigits (Nat.toDigits 10 n) :=
  fun _ hc => Nat.isDigit_of_mem_toDigits (by decide) (by decide) hc

lemma AllDigits.ne {cs : List Char} (h : AllDigits cs) {d : Char} (hd : d.isDigit = false) :
    ∀ c ∈ cs, (c != d) = true := by
  intro c hc
  simp only [bne_iff_ne, ne_eq]
  rintro rfl
  exact absurd (h c hc) (by simp [hd])

/-- Digits with a point among them, and perhaps an exponent behind. -/
lemma decimalValue_point {whole fraction exponent : List Char} (hwhole : AllDigits whole)
    (hfraction : AllDigits fraction) (hexponent : ∀ c, exponent.head? = some c → c = 'e') :
    decimalValue (whole ++ '.' :: fraction ++ exponent)
      = Nat.ofDigitChars 10 (whole ++ fraction) 0
        * 10 ^ (exponentValue exponent - fraction.length) := by
  have hmantissa : ∀ c ∈ whole ++ '.' :: fraction, (c != 'e') = true := by
    refine List.forall_mem_append.mpr ⟨hwhole.ne rfl, List.forall_mem_cons.mpr ⟨by decide, ?_⟩⟩
    exact hfraction.ne rfl
  have hbehind : ∀ c, exponent.head? = some c → (c != 'e') = false := by
    intro c hc
    rw [hexponent c hc]
    rfl
  have hpoint : ∀ c, ('.' :: fraction).head? = some c → (c != '.') = false := by
    rintro c ⟨⟩
    rfl
  obtain ⟨htake, hdrop⟩ := takeWhile_dropWhile_append hmantissa hbehind
  obtain ⟨htake', hdrop'⟩ := takeWhile_dropWhile_append (hwhole.ne rfl) hpoint
  rw [decimalValue, htake, hdrop, htake', hdrop', List.drop_one, List.tail_cons]

/-- Digits with a point among them and no exponent. -/
lemma decimalValue_fraction {whole fraction : List Char} (hwhole : AllDigits whole)
    (hfraction : AllDigits fraction) :
    decimalValue (whole ++ '.' :: fraction)
      = Nat.ofDigitChars 10 (whole ++ fraction) 0 * 10 ^ (-(fraction.length : ℤ)) := by
  have hnone : ∀ c, [].head? = some c → c = 'e' := nofun
  have hvalue := decimalValue_point hwhole hfraction hnone
  rwa [List.append_nil, exponentValue_nil, zero_sub] at hvalue

/-- Digits without a point, and perhaps an exponent behind. -/
lemma decimalValue_whole {whole exponent : List Char} (hwhole : AllDigits whole)
    (hexponent : ∀ c, exponent.head? = some c → c = 'e') :
    decimalValue (whole ++ exponent)
      = Nat.ofDigitChars 10 whole 0 * 10 ^ exponentValue exponent := by
  have hbehind : ∀ c, exponent.head? = some c → (c != 'e') = false := by
    intro c hc
    rw [hexponent c hc]
    rfl
  have hnone : ∀ c, [].head? = some c → (c != '.') = false := nofun
  obtain ⟨htake, hdrop⟩ := takeWhile_dropWhile_append (hwhole.ne rfl) hbehind
  obtain ⟨htake', hdrop'⟩ := takeWhile_dropWhile_append (hwhole.ne rfl) hnone
  rw [List.append_nil] at htake' hdrop'
  rw [decimalValue, htake, hdrop, htake', hdrop']
  simp

/-- Zeros behind digits multiply what they stand for. -/
lemma ofDigitChars_append_zeros (digits : List Char) (n : ℕ) :
    Nat.ofDigitChars 10 (digits ++ List.replicate n '0') 0
      = 10 ^ n * Nat.ofDigitChars 10 digits 0 := by
  rw [Nat.ofDigitChars_append, Nat.ofDigitChars_replicate_zero]

/-- Zeros in front of digits mean nothing. -/
lemma ofDigitChars_zeros_append (digits : List Char) (n : ℕ) :
    Nat.ofDigitChars 10 (List.replicate n '0' ++ digits) 0 = Nat.ofDigitChars 10 digits 0 := by
  rw [Nat.ofDigitChars_append, Nat.ofDigitChars_replicate_zero, Nat.mul_zero]

namespace Binary64

/-- **Digits written positionally** have the value that the place of the point gives them. -/
lemma decimalValue_positional {digits : List Char} (h : AllDigits digits) (point : ℤ) :
    decimalValue (positional digits point)
      = Nat.ofDigitChars 10 digits 0 * 10 ^ (point - digits.length) := by
  rw [positional]
  split
  · -- the point stands in front of all digits
    rename_i hpoint
    have hvalue := decimalValue_fraction (allDigits_replicate 1)
      ((allDigits_replicate (-point).toNat).append h)
    have hplaces : (-((List.replicate (-point).toNat '0' ++ digits).length : ℤ))
        = point - digits.length := by
      rw [List.length_append, List.length_replicate]
      omega
    rw [← List.append_assoc (List.replicate 1 '0'), ← List.replicate_add,
      ofDigitChars_zeros_append, hplaces] at hvalue
    exact hvalue
  split
  · -- the point stands behind all digits
    rename_i hpoint hlength
    have hvalue := decimalValue_fraction
      (h.append (allDigits_replicate (point.toNat - digits.length))) (allDigits_replicate 1)
    have hplaces : (point - digits.length : ℤ)
        = (point.toNat - digits.length + 1 : ℕ) + -((List.replicate 1 '0').length : ℤ) := by
      rw [List.length_replicate]
      omega
    rw [List.append_assoc digits _ (List.replicate 1 '0'), ← List.replicate_add,
      ofDigitChars_append_zeros] at hvalue
    rw [hplaces, zpow_add₀ (by norm_num), zpow_natCast]
    refine hvalue.trans ?_
    push_cast
    ring
  · -- the point stands among the digits
    rename_i hpoint hlength
    have hwhole : AllDigits (digits.take point.toNat) := fun c hc => h c (List.mem_of_mem_take hc)
    have hfraction : AllDigits (digits.drop point.toNat) :=
      fun c hc => h c (List.mem_of_mem_drop hc)
    have hvalue := decimalValue_fraction hwhole hfraction
    have hplaces : (-((digits.drop point.toNat).length : ℤ)) = point - digits.length := by
      rw [List.length_drop]
      omega
    rwa [List.take_append_drop, hplaces] at hvalue

/-- **Digits written with an exponent** have the value that it gives them. -/
lemma decimalValue_scientific {digits : List Char} (h : AllDigits digits) (hne : digits ≠ [])
    (exponent : ℤ) :
    decimalValue (scientific digits exponent)
      = Nat.ofDigitChars 10 digits 0 * 10 ^ (exponent + 1 - digits.length) := by
  obtain ⟨digit, rest, rfl⟩ := List.exists_cons_of_ne_nil hne
  obtain ⟨hdigit, hrest⟩ := List.forall_mem_cons.mp h
  let sign := if exponent < 0 then '-' else '+'
  let tail := 'e' :: sign :: Nat.toDigits 10 exponent.natAbs
  have htail : ∀ c, tail.head? = some c → c = 'e' := fun c hc => (Option.some.inj hc).symm
  have hexponent : exponentValue tail = exponent := by
    show (if sign = '-' then -(Nat.ofDigitChars 10 (Nat.toDigits 10 exponent.natAbs) 0 : ℤ)
      else Nat.ofDigitChars 10 (Nat.toDigits 10 exponent.natAbs) 0) = exponent
    rw [Nat.ofDigitChars_ten_toDigits]
    by_cases hnegative : exponent < 0
    · rw [if_pos (if_pos hnegative)]
      omega
    · rw [if_neg (by simp [sign, hnegative])]
      omega
  have hfirst : AllDigits [digit] := List.forall_mem_singleton.mpr hdigit
  cases rest with
  | nil =>
      refine (decimalValue_whole hfirst htail).trans ?_
      rw [hexponent]
      simp
  | cons second rest =>
      have hvalue := decimalValue_point hfirst hrest htail
      have hplaces : (exponent - ((second :: rest).length : ℤ))
          = exponent + 1 - ((digit :: second :: rest).length : ℤ) := by
        simp only [List.length_cons]
        omega
      rw [hexponent, hplaces] at hvalue
      exact hvalue

end Binary64

/-! ## The text of a magnitude -/

namespace Decimal

variable (decimal : Decimal)

/-- The digits of a decimal that are written: all but the zeros at the end, and at least one. -/
def writtenDigits : List Char :=
  let digits := Nat.toDigits 10 decimal.digits
  digits.take 1 ++ ((digits.drop 1).reverse.dropWhile (· == '0')).reverse

/-- The exponent of the first digit. -/
def leadingExponent : ℤ :=
  decimal.exponent + (Nat.toDigits 10 decimal.digits).length - 1

/-- The text of a decimal, in one notation or the other. -/
def magnitude : List Char :=
  if -5 ≤ decimal.leadingExponent && decimal.leadingExponent ≤ 15 then
    Binary64.positional decimal.writtenDigits (decimal.leadingExponent + 1)
  else Binary64.scientific decimal.writtenDigits decimal.leadingExponent

/-- What is not written is zeros at the end. -/
lemma exists_zeros : ∃ zeros,
    Nat.toDigits 10 decimal.digits = decimal.writtenDigits ++ List.replicate zeros '0' := by
  let digits := Nat.toDigits 10 decimal.digits
  have hsplit := List.takeWhile_append_dropWhile (p := (· == '0')) (l := (digits.drop 1).reverse)
  have hzeros : (digits.drop 1).reverse.takeWhile (· == '0')
      = List.replicate ((digits.drop 1).reverse.takeWhile (· == '0')).length '0' :=
    List.eq_replicate_iff.mpr
      ⟨rfl, fun c hc => by simpa using List.mem_takeWhile_imp hc⟩
  refine ⟨((digits.drop 1).reverse.takeWhile (· == '0')).length, ?_⟩
  rw [writtenDigits, List.append_assoc, ← List.reverse_replicate, ← hzeros, ← List.reverse_append,
    hsplit, List.reverse_reverse, List.take_append_drop]

lemma allDigits_writtenDigits : AllDigits decimal.writtenDigits := by
  obtain ⟨zeros, hdigits⟩ := decimal.exists_zeros
  have hall := allDigits_toDigits decimal.digits
  rw [hdigits] at hall
  exact fun c hc => hall c (List.mem_append_left _ hc)

lemma exists_writtenDigits_eq_cons :
    ∃ digit rest, decimal.writtenDigits = digit :: rest ∧ digit.isDigit = true := by
  obtain ⟨digit, rest, hdigits⟩ := List.exists_cons_of_ne_nil
    (Nat.toDigits_ne_nil (n := decimal.digits) (b := 10))
  have hwritten : decimal.writtenDigits
      = digit :: (rest.reverse.dropWhile (· == '0')).reverse := by
    rw [writtenDigits, hdigits]
    rfl
  refine ⟨digit, _, hwritten, decimal.allDigits_writtenDigits digit ?_⟩
  rw [hwritten]
  exact List.mem_cons_self

/-- **The text of a decimal has its value.** -/
lemma decimalValue_magnitude : decimalValue decimal.magnitude = decimal.value := by
  obtain ⟨zeros, hdigits⟩ := decimal.exists_zeros
  obtain ⟨digit, rest, hwritten, -⟩ := decimal.exists_writtenDigits_eq_cons
  have hne : decimal.writtenDigits ≠ [] := by simp [hwritten]
  have hvalue : (decimal.digits : ℚ)
      = Nat.ofDigitChars 10 decimal.writtenDigits 0 * 10 ^ zeros := by
    rw [← Nat.ofDigitChars_ten_toDigits (n := decimal.digits), hdigits, ofDigitChars_append_zeros]
    push_cast
    ring
  have hplaces : decimal.leadingExponent + 1 - decimal.writtenDigits.length
      = zeros + decimal.exponent := by
    rw [leadingExponent, hdigits, List.length_append, List.length_replicate]
    omega
  have hboth : decimalValue decimal.magnitude = Nat.ofDigitChars 10 decimal.writtenDigits 0
      * 10 ^ (decimal.leadingExponent + 1 - decimal.writtenDigits.length) := by
    rw [magnitude]
    split
    · exact Binary64.decimalValue_positional decimal.allDigits_writtenDigits _
    · exact Binary64.decimalValue_scientific decimal.allDigits_writtenDigits hne _
  rw [hboth, hplaces, zpow_add₀ (by norm_num), zpow_natCast, value, hvalue, mul_assoc]

/-- A text of a decimal begins with a digit. -/
lemma exists_magnitude_eq_cons :
    ∃ digit rest, decimal.magnitude = digit :: rest ∧ digit.isDigit = true := by
  obtain ⟨digit, rest, hwritten, hdigit⟩ := decimal.exists_writtenDigits_eq_cons
  rw [magnitude, hwritten]
  split
  · rw [Binary64.positional]
    split
    · exact ⟨'0', _, rfl, rfl⟩
    split
    · exact ⟨digit, _, rfl, hdigit⟩
    · rename_i hpoint _
      obtain ⟨places, hplaces⟩ : ∃ places, (decimal.leadingExponent + 1).toNat = places + 1 :=
        ⟨(decimal.leadingExponent + 1).toNat - 1, by omega⟩
      rw [hplaces]
      exact ⟨digit, _, rfl, hdigit⟩
  · exact ⟨digit, _, rfl, hdigit⟩

/-- A text of a decimal has a point or an exponent. -/
lemma point_or_exponent_mem_magnitude :
    '.' ∈ decimal.magnitude ∨ 'e' ∈ decimal.magnitude := by
  rw [magnitude]
  split
  · left
    rw [Binary64.positional]
    split_ifs <;> simp
  · right
    simp [Binary64.scientific]

end Decimal

/-- A character of the text of a number. -/
def isNumberChar (c : Char) : Bool :=
  c.isDigit || c == '-' || c == '+' || c == '.' || c == 'e'

lemma isNumberChar_of_isDigit {c : Char} (h : c.isDigit = true) : isNumberChar c = true := by
  simp [isNumberChar, h]

lemma AllDigits.isNumberChar {cs : List Char} (h : AllDigits cs) :
    ∀ c ∈ cs, isNumberChar c = true :=
  fun c hc => isNumberChar_of_isDigit (h c hc)

/-- A text of a decimal has digits, a point, an exponent and its sign. -/
lemma Decimal.isNumberChar_of_mem_magnitude (decimal : Decimal) :
    ∀ c ∈ decimal.magnitude, isNumberChar c = true := by
  have hwritten := decimal.allDigits_writtenDigits.isNumberChar
  have htake : ∀ n, ∀ c ∈ decimal.writtenDigits.take n, isNumberChar c = true :=
    fun n c hc => hwritten c (List.mem_of_mem_take hc)
  have hdrop : ∀ n, ∀ c ∈ decimal.writtenDigits.drop n, isNumberChar c = true :=
    fun n c hc => hwritten c (List.mem_of_mem_drop hc)
  have hzeros := fun n => (allDigits_replicate n).isNumberChar
  rw [magnitude]
  split
  · rw [Binary64.positional]
    split_ifs <;> simp only [List.forall_mem_append, List.forall_mem_cons]
    · exact ⟨⟨rfl, rfl, hzeros _⟩, hwritten⟩
    · exact ⟨⟨hwritten, hzeros _⟩, rfl, rfl, nofun⟩
    · exact ⟨htake _, rfl, hdrop _⟩
  · rw [Binary64.scientific]
    simp only [List.forall_mem_append, List.forall_mem_cons]
    refine ⟨⟨htake _, ?_⟩, rfl, ?_, (allDigits_toDigits _).isNumberChar⟩
    · split
      · exact nofun
      · exact List.forall_mem_cons.mpr ⟨rfl, hdrop _⟩
    · split <;> rfl

namespace Binary64

lemma toList_text (x : Binary64) :
    x.text.toList = if x.negative then '-' :: x.shortest.magnitude else x.shortest.magnitude := by
  rw [text]
  exact String.toList_ofList

/-- The sign and the text of the magnitude can be told apart. -/
lemma eq_of_text_eq {x y : Binary64} (h : x.text = y.text) :
    x.negative = y.negative ∧ x.shortest.magnitude = y.shortest.magnitude := by
  obtain ⟨digit, rest, hx, hdigit⟩ := x.shortest.exists_magnitude_eq_cons
  obtain ⟨digit', rest', hy, hdigit'⟩ := y.shortest.exists_magnitude_eq_cons
  have htext := congrArg String.toList h
  rw [toList_text, toList_text, hx, hy] at htext
  rw [hx, hy]
  cases hnegative : x.negative <;> cases hnegative' : y.negative <;>
    simp only [hnegative, hnegative', if_true, Bool.false_eq_true, if_false] at htext
  · exact ⟨rfl, htext⟩
  · obtain rfl := (List.cons.inj htext).1
    exact absurd hdigit (by decide)
  · obtain rfl := (List.cons.inj htext).1
    exact absurd hdigit' (by decide)
  · exact ⟨rfl, (List.cons.inj htext).2⟩

lemma value_shortest_of_rank_eq_zero {x : Binary64} (h : x.rank = 0) : x.shortest.value = 0 := by
  rw [shortest, if_pos h, Decimal.value]
  simp

lemma value_shortest_pos {x : Binary64} (h : x.rank ≠ 0) : 0 < x.shortest.value := by
  have hdigits := digits_pos_of_owns h (owns_shortest h)
  rw [Decimal.value]
  positivity

/-- **Different numbers have different texts.** -/
theorem text_injective : Function.Injective text := by
  intro x y h
  obtain ⟨hsign, hmagnitude⟩ := eq_of_text_eq h
  have hvalue : x.shortest.value = y.shortest.value := by
    rw [← Decimal.decimalValue_magnitude, hmagnitude, Decimal.decimalValue_magnitude]
  have hrank : x.rank = y.rank := by
    by_cases hx : x.rank = 0
    · by_cases hy : y.rank = 0
      · rw [hx, hy]
      · exact absurd (hvalue.symm.trans (value_shortest_of_rank_eq_zero hx))
          (value_shortest_pos hy).ne'
    · by_cases hy : y.rank = 0
      · exact absurd (hvalue.trans (value_shortest_of_rank_eq_zero hy)) (value_shortest_pos hx).ne'
      · exact rank_eq_of_owns hvalue (owns_shortest hx) (owns_shortest hy)
  cases x
  cases y
  simp only at hsign hrank
  subst hsign hrank
  rfl

end Binary64

end GraphRequest
