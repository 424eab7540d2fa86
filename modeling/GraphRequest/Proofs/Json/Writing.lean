import GraphRequest.Json.Printer
import GraphRequest.Json.Reader
import GraphRequest.Proofs.Number.DecimalText
import GraphRequest.Proofs.Text.Parting

/-!
# The compact text tells the value

Two rows belong to the same entity exactly when the compact texts of their ids are equal.  That is
identity of the ids, whatever values they are, because a compact text can be read in one way only.

* `Number.text_injective` — the texts of different numbers differ: a floating point number always
  has a point or an exponent, and a decimal rounds to one of them.
* `Json.readString_escape` — what was escaped is read back, so a string ends where its text does.
* `Json.eq_of_compact` — of values with any text behind them both are known, as long as that text
  does not go on with a number.  The first character tells the kind of a value, and behind an
  element or a member stands a comma or the closing bracket.
* **`Json.compact_injective`** — hence the compact text tells the value: kinds, elements and names
  in order, and the two zeros.
-/

namespace GraphRequest

/-! ## Numbers -/

namespace Number

lemma toList_text_natural (n : ℕ) :
    (text (.integer (.ofNat n))).toList = Nat.toDigits 10 n :=
  Nat.toList_repr

lemma toList_text_negative (n : ℕ) :
    (text (.integer (.negSucc n))).toList = '-' :: Nat.toDigits 10 (n + 1) := by
  rw [text, String.toList_append, Nat.toList_repr]
  rfl

lemma digits_ne_sign {digits rest : List Char} (hdigits : AllDigits digits) :
    digits ≠ '-' :: rest := by
  rintro rfl
  exact absurd (hdigits '-' List.mem_cons_self) (by decide)

lemma toDigits_injective : Function.Injective (Nat.toDigits 10) := by
  intro m n h
  rw [← Nat.ofDigitChars_ten_toDigits (n := m), h, Nat.ofDigitChars_ten_toDigits]

lemma integer_injective {m n : ℤ} (h : text (.integer m) = text (.integer n)) : m = n := by
  have htext := congrArg String.toList h
  cases m <;> cases n <;> simp only [toList_text_natural, toList_text_negative] at htext
  · rw [toDigits_injective htext]
  · exact absurd htext (digits_ne_sign (allDigits_toDigits _))
  · exact absurd htext.symm (digits_ne_sign (allDigits_toDigits _))
  · exact congrArg Int.negSucc (Nat.succ_injective (toDigits_injective (List.cons.inj htext).2))

/-- The text of an integer has neither a point nor an exponent. -/
lemma mem_text_integer {n : ℤ} {c : Char} (h : c ∈ (text (.integer n)).toList) :
    c.isDigit = true ∨ c = '-' := by
  cases n with
  | ofNat n =>
      rw [Int.ofNat_eq_natCast] at h
      exact Or.inl (allDigits_toDigits n c (toList_text_natural n ▸ h))
  | negSucc n =>
      rw [toList_text_negative] at h
      exact (List.mem_cons.mp h).symm.imp_left (allDigits_toDigits _ c)

lemma integer_ne_float (n : ℤ) (x : Binary64) : text (.integer n) ≠ text (.float x) := by
  intro h
  have hmem : '.' ∈ x.text.toList ∨ 'e' ∈ x.text.toList := by
    have hmagnitude := x.shortest.point_or_exponent_mem_magnitude
    rw [Binary64.toList_text]
    split
    · exact hmagnitude.imp (List.mem_cons_of_mem _) (List.mem_cons_of_mem _)
    · exact hmagnitude
  have hfloat : x.text = text (.integer n) := h.symm
  rw [hfloat] at hmem
  rcases hmem with hpoint | hexponent
  · exact absurd (mem_text_integer hpoint) (by decide)
  · exact absurd (mem_text_integer hexponent) (by decide)

/-- **Different numbers have different texts.** -/
theorem text_injective : Function.Injective text := by
  intro m n h
  cases m with
  | integer m =>
      cases n with
      | integer n => rw [integer_injective h]
      | float y => exact absurd h (integer_ne_float m y)
  | float x =>
      cases n with
      | integer n => exact absurd h.symm (integer_ne_float n x)
      | float y => rw [Binary64.text_injective h]

/-- The text of a number has digits, a sign, a point and an exponent. -/
lemma isNumberChar_of_mem_text (n : Number) : ∀ c ∈ n.text.toList, isNumberChar c = true := by
  cases n with
  | integer n =>
      intro c hc
      rcases mem_text_integer hc with hdigit | rfl
      · exact isNumberChar_of_isDigit hdigit
      · rfl
  | float x =>
      have hmagnitude := x.shortest.isNumberChar_of_mem_magnitude
      show ∀ c ∈ x.text.toList, _
      rw [Binary64.toList_text]
      split
      · exact List.forall_mem_cons.mpr ⟨rfl, hmagnitude⟩
      · exact hmagnitude

lemma text_ne_nil (n : Number) : n.text.toList ≠ [] := by
  cases n with
  | integer n =>
      cases n with
      | ofNat n => exact toList_text_natural n ▸ Nat.toDigits_ne_nil
      | negSucc n => rw [toList_text_negative]; exact List.cons_ne_nil _ _
  | float x =>
      obtain ⟨digit, rest, hmagnitude, -⟩ := x.shortest.exists_magnitude_eq_cons
      show x.text.toList ≠ []
      rw [Binary64.toList_text, hmagnitude]
      split <;> exact List.cons_ne_nil _ _

end Number

/-- That a text does not begin by going on with a number. -/
def NumberEnds (text : List Char) : Prop :=
  ∀ c, text.head? = some c → isNumberChar c = false

@[simp] lemma numberEnds_cons {c : Char} {text : List Char} :
    NumberEnds (c :: text) ↔ isNumberChar c = false := by
  simp [NumberEnds]

/-- A number ends where its characters do. -/
lemma Number.eq_of_text {m n : Number} {rest rest' : List Char} (hends : NumberEnds rest)
    (hends' : NumberEnds rest') (h : m.text.toList ++ rest = n.text.toList ++ rest') :
    m = n ∧ rest = rest' := by
  obtain ⟨htext, hrest⟩ := parts_eq m.isNumberChar_of_mem_text n.isNumberChar_of_mem_text
    (by simpa [NumberEnds] using hends) (by simpa [NumberEnds] using hends') h
  exact ⟨text_injective (String.toList_inj.mp htext), hrest⟩

namespace Json

/-! ## Strings -/

lemma hexDigit?_digitChar : ∀ n < 16, hexDigit? n.digitChar = some n := by
  decide

/-- A control character is the one of the number that it is escaped as. -/
lemma hexValue?_control {c : Char} (h : c.toNat < 32) :
    hexValue? ['0', '0', Nat.digitChar (c.toNat / 16), Nat.digitChar (c.toNat % 16)]
      = some c.toNat := by
  have hhigh := hexDigit?_digitChar (c.toNat / 16) (by omega)
  have hlow := hexDigit?_digitChar (c.toNat % 16) (by omega)
  have hzero : hexDigit? '0' = some 0 := by decide
  simp only [hexValue?, List.foldl_cons, List.foldl_nil, Option.bind_some, hzero, hhigh, hlow,
    Option.map_some, Option.some.injEq]
  omega

/-- A letter behind a backslash is read as what it stands for. -/
lemma readString_letter {letter plain : Char} (h : unescape? letter = some plain)
    (rest : List Char) : readString ('\\' :: letter :: rest) = prepend plain (readString rest) := by
  have hletter : letter ≠ 'u' := by
    rintro rfl
    simp [unescape?] at h
  simp [readString, h, hletter]

/-- **What was escaped is read back.** -/
lemma readString_escape (c : Char) (rest : List Char) :
    readString (escape c ++ rest) = prepend c (readString rest) := by
  unfold escape
  split_ifs with hquote hbackslash h8 htab hline hfeed hreturn hcontrol
  · subst hquote
    exact readString_letter rfl rest
  · subst hbackslash
    exact readString_letter rfl rest
  · subst h8
    exact readString_letter rfl rest
  · subst htab
    exact readString_letter rfl rest
  · subst hline
    exact readString_letter rfl rest
  · subst hfeed
    exact readString_letter rfl rest
  · subst hreturn
    exact readString_letter rfl rest
  · have hunit : c.toNat < 0xD800 := by omega
    simp only [List.cons_append, List.nil_append, readString, hexValue?_control hcontrol, hunit,
      decide_true, Bool.true_or, if_true, Char.ofNat_toNat]
  · simp [readString, hbackslash, hcontrol]

lemma readString_quoted (cs rest : List Char) :
    readString (cs.flatMap escape ++ '"' :: rest) = some (cs, rest) := by
  induction cs with
  | nil => simp [readString]
  | cons c cs ih =>
      rw [List.flatMap_cons, List.append_assoc, readString_escape, ih]
      rfl

lemma toList_quote (s : String) : (quote s).toList = '"' :: (s.toList.flatMap escape ++ ['"']) :=
  String.toList_ofList

/-- A string ends with its closing quotation mark. -/
lemma eq_of_quote {s t : String} {rest rest' : List Char}
    (h : (quote s).toList ++ rest = (quote t).toList ++ rest') : s = t ∧ rest = rest' := by
  rw [toList_quote, toList_quote] at h
  simp only [List.cons_append, List.append_assoc, List.cons.injEq, true_and, List.nil_append] at h
  have hread := congrArg readString h
  rw [readString_quoted, readString_quoted, Option.some.injEq, Prod.mk.injEq] at hread
  exact ⟨String.toList_inj.mp hread.1, hread.2⟩

/-! ## Values -/

/-- What stands in front of the texts of a value's kind: its first character, where all that begin
    numbers count as one. -/
def opening : Json → Char
  | .null => 'n'
  | .bool true => 't'
  | .bool false => 'f'
  | .number _ => '0'
  | .string _ => '"'
  | .array _ => '['
  | .object _ => '\x7b'

/-- The first character tells the kind of a value. -/
lemma exists_compact_eq_cons (x : Json) :
    ∃ c cs, x.compact.toList = c :: cs ∧ (if isNumberChar c then '0' else c) = x.opening := by
  cases x with
  | null => exact ⟨'n', _, rfl, rfl⟩
  | bool value => cases value <;> exact ⟨_, _, rfl, rfl⟩
  | number n =>
      obtain ⟨c, cs, htext⟩ := List.exists_cons_of_ne_nil n.text_ne_nil
      refine ⟨c, cs, htext, if_pos (n.isNumberChar_of_mem_text c ?_)⟩
      rw [htext]
      exact List.mem_cons_self
  | string s => exact ⟨_, _, toList_quote s, rfl⟩
  | array items =>
      exact ⟨'[', _, by rw [compact, String.append_assoc, String.toList_append]; rfl, rfl⟩
  | object members =>
      exact ⟨'\x7b', _, by rw [compact, String.append_assoc, String.toList_append]; rfl, rfl⟩

/-- What can stand behind a value begins none. -/
lemma opening_not_mem (x : Json) : x.opening ∉ [',', ']', '\x7d'] := by
  cases x with
  | bool value => cases value <;> decide
  | _ => simp [opening]

lemma compact_append_ne (x : Json) {c : Char} (hc : c ∈ [',', ']', '\x7d'])
    (rest rest' : List Char) : x.compact.toList ++ rest ≠ c :: rest' := by
  intro h
  obtain ⟨d, ds, hx, hopening⟩ := x.exists_compact_eq_cons
  rw [hx] at h
  obtain rfl := (List.cons.inj h).1
  have hnumber : isNumberChar d = false := by
    simp only [List.mem_cons, List.not_mem_nil, or_false] at hc
    rcases hc with rfl | rfl | rfl <;> rfl
  rw [hnumber, if_neg (by decide)] at hopening
  exact x.opening_not_mem (hopening ▸ hc)

/-- That two values are of one kind; of one without contents there is only one value. -/
inductive Alike : Json → Json → Prop
  | null : Alike .null .null
  | bool (value : Bool) : Alike (.bool value) (.bool value)
  | number (m n : Number) : Alike (.number m) (.number n)
  | string (s t : String) : Alike (.string s) (.string t)
  | array (items others : List Json) : Alike (.array items) (.array others)
  | object (members others : List (String × Json)) : Alike (.object members) (.object others)

lemma alike_of_opening {x y : Json} (h : x.opening = y.opening) : Alike x y := by
  rcases x with _ | ⟨_ | _⟩ | _ | _ | _ | _ <;> rcases y with _ | ⟨_ | _⟩ | _ | _ | _ | _ <;>
    first
    | constructor
    | simp [opening] at h

/-- Values with one text in front are of one kind. -/
lemma alike_of_compact {x y : Json} {rest rest' : List Char}
    (h : x.compact.toList ++ rest = y.compact.toList ++ rest') : Alike x y := by
  obtain ⟨c, cs, hx, hopening⟩ := x.exists_compact_eq_cons
  obtain ⟨d, ds, hy, hopening'⟩ := y.exists_compact_eq_cons
  rw [hx, hy] at h
  exact alike_of_opening (by rw [← hopening, ← hopening', (List.cons.inj h).1])

/-- The texts of elements, each behind a comma. -/
def furtherItems (items : List Json) : List Char :=
  items.flatMap fun x => ',' :: x.compact.toList

/-- The text of a member. -/
def memberText (member : String × Json) : List Char :=
  (quote member.1).toList ++ ':' :: member.2.compact.toList

/-- The texts of members, each behind a comma. -/
def furtherMembers (members : List (String × Json)) : List Char :=
  members.flatMap fun member => ',' :: memberText member

lemma toList_compact_items (x : Json) (items : List Json) :
    (compact (.array (x :: items))).toList
      = '[' :: (x.compact.toList ++ furtherItems items ++ [']']) := by
  have hitems : ∀ items : List Json,
      (compactItems items).flatMap (fun text => ',' :: text.toList) = furtherItems items := by
    intro items
    induction items with
    | nil => rfl
    | cons x items ih => rw [compactItems, List.flatMap_cons, ih, furtherItems, furtherItems,
        List.flatMap_cons]
  rw [compact, compactItems, String.toList_append, String.toList_append, String.toList_intercalate,
    List.map_cons, intercalate_cons, List.flatMap_map, ← hitems]
  rfl

lemma toList_compact_members (member : String × Json) (members : List (String × Json)) :
    (compact (.object (member :: members))).toList
      = '\x7b' :: (memberText member ++ furtherMembers members ++ ['\x7d']) := by
  have hmember : ∀ member : String × Json,
      (quote member.1 ++ ":" ++ member.2.compact).toList = memberText member := by
    intro member
    rw [String.toList_append, String.toList_append, memberText, List.append_assoc]
    rfl
  have hmembers : ∀ members : List (String × Json),
      (compactMembers members).flatMap (fun text => ',' :: text.toList)
        = furtherMembers members := by
    intro members
    induction members with
    | nil => rfl
    | cons member members ih =>
        rw [compactMembers, List.flatMap_cons, ih, hmember, furtherMembers, furtherMembers,
          List.flatMap_cons]
  have hopening : "\x7b".toList = ['\x7b'] := rfl
  rw [compact, compactMembers, String.toList_append, String.toList_append,
    String.toList_intercalate, List.map_cons, intercalate_cons, List.flatMap_map, hmember,
    ← hmembers, hopening, List.singleton_append, List.cons_append]
  rfl

lemma numberEnds_furtherItems (items : List Json) (rest : List Char) :
    NumberEnds (furtherItems items ++ ']' :: rest) := by
  cases items with
  | nil => exact numberEnds_cons.mpr rfl
  | cons x items => exact numberEnds_cons.mpr rfl

lemma numberEnds_furtherMembers (members : List (String × Json)) (rest : List Char) :
    NumberEnds (furtherMembers members ++ '\x7d' :: rest) := by
  cases members with
  | nil => exact numberEnds_cons.mpr rfl
  | cons member members => exact numberEnds_cons.mpr rfl

lemma furtherItems_cons_append (x : Json) (items : List Json) (rest : List Char) :
    furtherItems (x :: items) ++ rest
      = ',' :: (x.compact.toList ++ (furtherItems items ++ rest)) := by
  simp [furtherItems]

lemma furtherMembers_cons_append (name : String) (x : Json) (members : List (String × Json))
    (rest : List Char) :
    furtherMembers ((name, x) :: members) ++ rest
      = ',' :: ((quote name).toList
        ++ ':' :: (x.compact.toList ++ (furtherMembers members ++ rest))) := by
  simp [furtherMembers, memberText]

mutual

/-- **A compact text can be read in one way.** -/
theorem eq_of_compact : ∀ (x y : Json) {rest rest' : List Char}, NumberEnds rest →
    NumberEnds rest' → x.compact.toList ++ rest = y.compact.toList ++ rest' →
      x = y ∧ rest = rest'
  | .null, _ => by
      intro _ _ h
      cases alike_of_compact h
      exact ⟨rfl, List.append_cancel_left h⟩
  | .bool _, _ => by
      intro _ _ h
      cases alike_of_compact h
      exact ⟨rfl, List.append_cancel_left h⟩
  | .number m, _ => by
      intro hends hends' h
      cases alike_of_compact h
      obtain ⟨rfl, hrest⟩ := Number.eq_of_text hends hends' h
      exact ⟨rfl, hrest⟩
  | .string s, _ => by
      intro _ _ h
      cases alike_of_compact h
      obtain ⟨rfl, hrest⟩ := eq_of_quote h
      exact ⟨rfl, hrest⟩
  | .array items, _ => by
      intro _ _ h
      cases alike_of_compact h with
      | array _ others => exact (eq_of_items items others h).imp_left (congrArg array)
  | .object members, _ => by
      intro _ _ h
      cases alike_of_compact h with
      | object _ others => exact (eq_of_members members others h).imp_left (congrArg object)
termination_by structural x => x

/-- Elements end with the closing bracket. -/
theorem eq_of_items : ∀ (items others : List Json) {rest rest' : List Char},
    (compact (.array items)).toList ++ rest = (compact (.array others)).toList ++ rest' →
      items = others ∧ rest = rest'
  | [], [] => fun h => ⟨rfl, List.append_cancel_left h⟩
  | [], y :: others => by
      intro h
      simp only [toList_compact_items, List.cons_append, List.append_assoc] at h
      exact absurd (List.cons.inj h).2.symm (y.compact_append_ne (by decide) _ _)
  | x :: items, [] => by
      intro h
      simp only [toList_compact_items, List.cons_append, List.append_assoc] at h
      exact absurd (List.cons.inj h).2 (x.compact_append_ne (by decide) _ _)
  | x :: items, y :: others => by
      intro h
      simp only [toList_compact_items, List.cons_append, List.append_assoc, List.cons.injEq,
        true_and, List.nil_append] at h
      obtain ⟨rfl, hmore⟩ := eq_of_compact x y (numberEnds_furtherItems items _)
        (numberEnds_furtherItems others _) h
      obtain ⟨rfl, hrest⟩ := eq_of_furtherItems items others hmore
      exact ⟨rfl, hrest⟩
termination_by structural items => items

/-- So do elements that each come behind a comma. -/
theorem eq_of_furtherItems : ∀ (items others : List Json) {rest rest' : List Char},
    furtherItems items ++ ']' :: rest = furtherItems others ++ ']' :: rest' →
      items = others ∧ rest = rest'
  | [], [] => fun h => ⟨rfl, (List.cons.inj h).2⟩
  | [], y :: others => by
      intro h
      rw [furtherItems_cons_append] at h
      exact absurd (List.cons.inj h).1 (by decide)
  | x :: items, [] => by
      intro h
      rw [furtherItems_cons_append] at h
      exact absurd (List.cons.inj h).1 (by decide)
  | x :: items, y :: others => by
      intro h
      rw [furtherItems_cons_append, furtherItems_cons_append, List.cons.injEq] at h
      obtain ⟨rfl, hmore⟩ := eq_of_compact x y (numberEnds_furtherItems items _)
        (numberEnds_furtherItems others _) h.2
      obtain ⟨rfl, hrest⟩ := eq_of_furtherItems items others hmore
      exact ⟨rfl, hrest⟩
termination_by structural items => items

/-- Members end with the closing brace. -/
theorem eq_of_members : ∀ (members others : List (String × Json)) {rest rest' : List Char},
    (compact (.object members)).toList ++ rest = (compact (.object others)).toList ++ rest' →
      members = others ∧ rest = rest'
  | [], [] => fun h => ⟨rfl, List.append_cancel_left h⟩
  | [], (name', y) :: others => by
      intro h
      simp only [toList_compact_members, memberText, toList_quote, List.cons_append] at h
      exact absurd (List.cons.inj (List.cons.inj h).2).1 (by decide)
  | (name, x) :: members, [] => by
      intro h
      simp only [toList_compact_members, memberText, toList_quote, List.cons_append] at h
      exact absurd (List.cons.inj (List.cons.inj h).2).1 (by decide)
  | (name, x) :: members, (name', y) :: others => by
      intro h
      simp only [toList_compact_members, memberText, List.cons_append, List.append_assoc,
        List.cons.injEq, true_and, List.nil_append] at h
      obtain ⟨rfl, hvalue⟩ := eq_of_quote h
      obtain ⟨rfl, hmore⟩ := eq_of_compact x y (numberEnds_furtherMembers members _)
        (numberEnds_furtherMembers others _) (List.cons.inj hvalue).2
      obtain ⟨rfl, hrest⟩ := eq_of_furtherMembers members others hmore
      exact ⟨rfl, hrest⟩
termination_by structural members => members

/-- So do members that each come behind a comma. -/
theorem eq_of_furtherMembers : ∀ (members others : List (String × Json)) {rest rest' : List Char},
    furtherMembers members ++ '\x7d' :: rest = furtherMembers others ++ '\x7d' :: rest' →
      members = others ∧ rest = rest'
  | [], [] => fun h => ⟨rfl, (List.cons.inj h).2⟩
  | [], (name', y) :: others => by
      intro h
      rw [furtherMembers_cons_append] at h
      exact absurd (List.cons.inj h).1 (by decide)
  | (name, x) :: members, [] => by
      intro h
      rw [furtherMembers_cons_append] at h
      exact absurd (List.cons.inj h).1 (by decide)
  | (name, x) :: members, (name', y) :: others => by
      intro h
      rw [furtherMembers_cons_append, furtherMembers_cons_append, List.cons.injEq] at h
      obtain ⟨rfl, hvalue⟩ := eq_of_quote h.2
      obtain ⟨rfl, hmore⟩ := eq_of_compact x y (numberEnds_furtherMembers members _)
        (numberEnds_furtherMembers others _) (List.cons.inj hvalue).2
      obtain ⟨rfl, hrest⟩ := eq_of_furtherMembers members others hmore
      exact ⟨rfl, hrest⟩
termination_by structural members => members

end

/-- **The compact text tells the value.** -/
theorem compact_injective : Function.Injective compact := by
  intro x y h
  have hends : NumberEnds [] := nofun
  exact (eq_of_compact x y hends hends (by rw [h])).1

end Json

end GraphRequest
