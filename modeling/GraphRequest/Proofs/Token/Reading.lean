import GraphRequest.Token.Scan
import Mathlib.Data.List.TakeWhile
import Mathlib.Tactic.Lemma

/-!
# What scanning finds

Scanning is compared here with the text it scans, token by token and in both directions.

* **Forward** — a text that begins with the spelling of a token is scanned to that token
  (`Token.ofChars_ident` and its siblings).  A name or a number is taken as long as it goes on, so
  for these two the text after them must not go on with it; that is read off the **next token**,
  which is no word (`Token.NoWord`).
* **Backward** — `Token.ofChars_eq_cons`: if scanning finds a token first, then the text is blanks,
  the spelling of the token, and a text that is scanned to the rest.

`Token.Proper` collects what every token found is: names are names, numerals are digits, and a
string has no quotation mark inside.
-/

namespace GraphRequest

/-! ## Names and numerals -/

/-- A name: a letter or an underscore, and then letters, digits and underscores. -/
def IsName (text : String) : Prop :=
  ∃ c cs, text.toList = c :: cs ∧ isNameStart c = true ∧ ∀ d ∈ cs, isNameChar d = true

/-- A numeral: one digit or more. -/
def IsNumeral (text : String) : Prop :=
  text.toList ≠ [] ∧ ∀ c ∈ text.toList, c.isDigit = true

lemma isNameChar_iff (c : Char) :
    isNameChar c = true ↔ isNameStart c = true ∨ c.isDigit = true := by
  simp only [isNameChar, isNameStart, Char.isAlphanum, Bool.or_eq_true]
  rw [or_right_comm]

lemma isNameChar_of_isNameStart {c : Char} (h : isNameStart c = true) : isNameChar c = true :=
  (isNameChar_iff c).mpr (Or.inl h)

/-- No digit begins a name. -/
lemma isNameStart_of_isDigit {c : Char} (h : c.isDigit = true) : isNameStart c = false := by
  have hle : c.val.toNat ≤ 57 := by
    simp only [Char.isDigit, Bool.and_eq_true, decide_eq_true_eq, UInt32.le_iff_toNat_le] at h
    exact h.2
  cases hs : isNameStart c with
  | false => rfl
  | true =>
      unfold isNameStart Char.isAlpha Char.isUpper Char.isLower at hs
      simp only [Bool.or_eq_true, Bool.and_eq_true, decide_eq_true_eq, UInt32.le_iff_toNat_le,
        beq_iff_eq, ge_iff_le] at hs
      rcases hs with (⟨hupper, -⟩ | ⟨hlower, -⟩) | rfl
      · exact absurd (Nat.le_trans hupper hle) (by decide)
      · exact absurd (Nat.le_trans hlower hle) (by decide)
      · exact absurd hle (by decide)

/-- No blank is part of a name. -/
lemma isNameChar_of_isWhitespace {c : Char} (h : c.isWhitespace = true) : isNameChar c = false := by
  simp only [Char.isWhitespace, Bool.or_eq_true, decide_eq_true_eq] at h
  rcases h with ((rfl | rfl) | rfl) | rfl <;> rfl

/-- Nor does a name contain a blank. -/
lemma isWhitespace_of_isNameChar {c : Char} (h : isNameChar c = true) : c.isWhitespace = false := by
  cases hb : c.isWhitespace with
  | false => rfl
  | true => exact absurd h (by simp [isNameChar_of_isWhitespace hb])

lemma IsName.all {name : String} (h : IsName name) : ∀ c ∈ name.toList, isNameChar c = true := by
  obtain ⟨c, cs, hcs, hc, hall⟩ := h
  rw [hcs]
  exact List.forall_mem_cons.mpr ⟨isNameChar_of_isNameStart hc, hall⟩

/-- Cutting off as long as a test holds, where the test is known to stop holding. -/
lemma takeWhile_dropWhile_append {p : Char → Bool} {front back : List Char}
    (hfront : ∀ c ∈ front, p c = true) (hback : ∀ c, back.head? = some c → p c = false) :
    (front ++ back).takeWhile p = front ∧ (front ++ back).dropWhile p = back := by
  rw [List.takeWhile_append_of_pos hfront, List.dropWhile_append_of_pos hfront]
  cases back with
  | nil => simp
  | cons c cs => simp [hback c rfl]

lemma head?_dropWhile_eq_false {p : Char → Bool} {cs : List Char} {c : Char}
    (h : (cs.dropWhile p).head? = some c) : p c = false := by
  have := List.head?_dropWhile_not p cs
  rw [h] at this
  exact this

namespace Token

/-! ## The tokens that are found -/

/-- The tokens of a text given by its characters. -/
def ofChars (cs : List Char) : List Token :=
  (Lexeme.scan 0 cs).map Lexeme.token

lemma map_token_scan (offset : Nat) (cs : List Char) :
    (Lexeme.scan offset cs).map Lexeme.token = ofChars cs := by
  have hany : ∀ offset offset', (Lexeme.scan offset cs).map Lexeme.token
      = (Lexeme.scan offset' cs).map Lexeme.token := by
    intro offset
    fun_induction Lexeme.scan offset cs with
    | case1 => simp [Lexeme.scan]
    | case2 offset c cs hblank ih =>
        intro offset'
        rw [ih (offset' + 1), Lexeme.scan, if_pos hblank]
    | case3 offset c cs hblank token ih =>
        intro offset'
        rw [List.map_cons, ih (offset' + token.width), Lexeme.scan, if_neg hblank, List.map_cons]
  exact hany offset 0

/-- The tokens of a text are those of its characters. -/
lemma ofText_eq_ofChars (text : String) : ofText text = ofChars text.toList := rfl

@[simp] lemma ofChars_nil : ofChars [] = [] := by
  simp [ofChars, Lexeme.scan]

lemma ofChars_blank {c : Char} (h : c.isWhitespace = true) (cs : List Char) :
    ofChars (c :: cs) = ofChars cs := by
  rw [ofChars, Lexeme.scan, if_pos h, map_token_scan]

lemma ofChars_cons {c : Char} (h : c.isWhitespace = false) (cs : List Char) :
    ofChars (c :: cs) = (atFront c cs).1 :: ofChars (atFront c cs).2 := by
  rw [ofChars, Lexeme.scan, if_neg (by simp [h]), List.map_cons, map_token_scan]

/-- What every token that is found satisfies. -/
def Proper : Token → Prop
  | .ident name => IsName name
  | .number digits => IsNumeral digits
  | .bound name => IsName name
  | .string text => '"' ∉ text.toList
  | .punctuation _ => True
  | .unclosed name => IsName name
  | .stray _ => True

/-- A name or a numeral, which would run together with another one right after it. -/
def isWord : Token → Bool
  | .ident _ => true
  | .number _ => true
  | _ => false

/-- That tokens do not begin with a word. -/
def NoWord (tokens : List Token) : Prop :=
  ∀ token, tokens.head? = some token → token.isWord = false

@[simp] lemma noWord_nil : NoWord [] := by simp [NoWord]

@[simp] lemma noWord_cons (token : Token) (tokens : List Token) :
    NoWord (token :: tokens) ↔ token.isWord = false := by
  simp [NoWord]

lemma NoWord.append {tokens : List Token} (h : NoWord tokens) {more : List Token}
    (hmore : tokens = [] → NoWord more) : NoWord (tokens ++ more) := by
  cases tokens with
  | nil => exact hmore rfl
  | cons token tokens => simpa using h

/-! ## The token at the front -/

lemma isName_ofList {c : Char} {cs : List Char} (hc : isNameStart c = true)
    (hcs : ∀ d ∈ cs, isNameChar d = true) : IsName (String.ofList (c :: cs)) :=
  ⟨c, cs, String.toList_ofList, hc, hcs⟩

lemma proper_afterAngle (cs : List Char) : (afterAngle cs).1.Proper := by
  unfold afterAngle
  split
  · trivial
  · rename_i c cs
    split
    · rename_i hc
      have hname := isName_ofList hc fun d hd => List.mem_takeWhile_imp (l := cs) hd
      split <;> exact hname
    · trivial

lemma proper_afterQuote (cs : List Char) : (afterQuote cs).1.Proper := by
  rw [afterQuote]
  split
  · trivial
  · intro hmem
    rw [String.toList_ofList] at hmem
    simpa using List.mem_takeWhile_imp hmem

/-- **Every token at the front of a text is proper.** -/
lemma proper_atFront (c : Char) (cs : List Char) : (atFront c cs).1.Proper := by
  rw [atFront]
  split
  · rename_i hc
    exact isName_ofList hc fun d hd => List.mem_takeWhile_imp hd
  split
  · rename_i hc
    refine ⟨by simp, fun d hd => ?_⟩
    rw [String.toList_ofList] at hd
    rcases List.mem_cons.mp hd with rfl | hd
    · exact hc
    · exact List.mem_takeWhile_imp hd
  split
  · exact proper_afterQuote cs
  split
  · exact proper_afterAngle cs
  · split <;> trivial

/-- A name is taken as long as it goes on. -/
lemma ident_ends {c : Char} {cs : List Char} {name : String}
    (h : (atFront c cs).1 = .ident name) {d : Char} (hd : (atFront c cs).2.head? = some d) :
    isNameChar d = false := by
  rw [atFront] at h hd
  split at h
  · rename_i hc
    rw [if_pos hc] at hd
    exact head?_dropWhile_eq_false hd
  split at h
  · simp at h
  split at h
  · rw [afterQuote] at h
    split at h <;> simp at h
  split at h
  · unfold afterAngle at h
    split at h
    · simp at h
    · split at h
      · split at h <;> simp at h
      · simp at h
  · split at h <;> simp at h

/-- **What scanning finds first stands first**, after blanks. -/
theorem ofChars_eq_cons {cs : List Char} {token : Token} {tokens : List Token}
    (h : ofChars cs = token :: tokens) :
    ∃ blanks rest, cs = blanks ++ token.spelling ++ rest ∧ (∀ c ∈ blanks, c.isWhitespace = true)
      ∧ ofChars rest = tokens ∧ token.Proper
      ∧ ∀ name, token = .ident name → ∀ c, rest.head? = some c → isNameChar c = false := by
  induction cs with
  | nil => simp at h
  | cons c cs ih =>
      by_cases hblank : c.isWhitespace = true
      · rw [ofChars_blank hblank] at h
        obtain ⟨blanks, rest, rfl, hblanks, hrest⟩ := ih h
        exact ⟨c :: blanks, rest, by simp, List.forall_mem_cons.mpr ⟨hblank, hblanks⟩, hrest⟩
      · rw [ofChars_cons (by simpa using hblank), List.cons.injEq] at h
        obtain ⟨rfl, rfl⟩ := h
        exact ⟨[], (atFront c cs).2, by simp [spelling_atFront], by simp, rfl,
          proper_atFront c cs, fun name hname d hd => ident_ends hname hd⟩

/-- Every token of a text is proper. -/
theorem proper_of_mem_ofChars {cs : List Char} {token : Token} (h : token ∈ ofChars cs) :
    token.Proper := by
  generalize htokens : ofChars cs = tokens at h
  induction tokens generalizing cs with
  | nil => simp at h
  | cons front tokens ih =>
      obtain ⟨blanks, rest, -, -, hrest, hproper, -⟩ := ofChars_eq_cons htokens
      rcases List.mem_cons.mp h with rfl | h
      · exact hproper
      · exact ih hrest h

/-! ## Scanning the spelling of a token

Each kind of token is found where its spelling stands.  For words the next token has to be looked
at: if it is no word, then what follows the spelling does not go on with it.
-/

/-- A text whose first token is no word does not begin with a character of a name. -/
lemma isNameChar_of_noWord {cs : List Char} (h : NoWord (ofChars cs)) {c : Char}
    (hc : cs.head? = some c) : isNameChar c = false := by
  obtain ⟨rest, rfl⟩ : ∃ rest, cs = c :: rest := by
    cases cs with
    | nil => simp at hc
    | cons d rest => exact ⟨rest, by simpa using hc⟩
  by_contra hchar
  rw [Bool.not_eq_false] at hchar
  rw [ofChars_cons (isWhitespace_of_isNameChar hchar), noWord_cons] at h
  rcases (isNameChar_iff c).mp hchar with hstart | hdigit
  · simp [atFront, hstart, isWord] at h
  · by_cases hstart : isNameStart c = true
    · simp [atFront, hstart, isWord] at h
    · simp [atFront, hstart, hdigit, isWord] at h

lemma isDigit_of_noWord {cs : List Char} (h : NoWord (ofChars cs)) {c : Char}
    (hc : cs.head? = some c) : c.isDigit = false := by
  have hchar := isNameChar_of_noWord h hc
  cases hd : c.isDigit with
  | false => rfl
  | true => exact absurd ((isNameChar_iff c).mpr (Or.inr hd)) (by simp [hchar])

lemma ofChars_ident {name : String} {rest : List Char} (hname : IsName name)
    (hrest : ∀ c, rest.head? = some c → isNameChar c = false) :
    ofChars (name.toList ++ rest) = .ident name :: ofChars rest := by
  obtain ⟨c, cs, hcs, hc, hall⟩ := hname
  obtain ⟨htake, hdrop⟩ := takeWhile_dropWhile_append hall hrest
  have hblank := isWhitespace_of_isNameChar (isNameChar_of_isNameStart hc)
  rw [hcs, List.cons_append, ofChars_cons hblank,
    atFront, if_pos hc, htake, hdrop, ← hcs, String.ofList_toList]

lemma ofChars_number {digits : String} {rest : List Char} (hdigits : IsNumeral digits)
    (hrest : ∀ c, rest.head? = some c → c.isDigit = false) :
    ofChars (digits.toList ++ rest) = .number digits :: ofChars rest := by
  obtain ⟨hne, hall⟩ := hdigits
  obtain ⟨c, cs, hcs⟩ := List.exists_cons_of_ne_nil hne
  rw [hcs] at hall
  have hc : c.isDigit = true := hall c (by simp)
  have hstart := isNameStart_of_isDigit hc
  have hblank := isWhitespace_of_isNameChar ((isNameChar_iff c).mpr (Or.inr hc))
  obtain ⟨htake, hdrop⟩ :=
    takeWhile_dropWhile_append (fun d hd => hall d (List.mem_cons_of_mem _ hd)) hrest
  rw [hcs, List.cons_append, ofChars_cons hblank, atFront, if_neg (by simp [hstart]), if_pos hc,
    htake, hdrop, ← hcs, String.ofList_toList]

lemma ofChars_bound {name : String} (hname : IsName name) (rest : List Char) :
    ofChars ('<' :: (name.toList ++ '>' :: rest)) = .bound name :: ofChars rest := by
  obtain ⟨c, cs, hcs, hc, hall⟩ := hname
  have hstop : ∀ d, ('>' :: rest).head? = some d → isNameChar d = false := by
    rintro d ⟨⟩
    rfl
  obtain ⟨htake, hdrop⟩ := takeWhile_dropWhile_append hall hstop
  have hangle : atFront '<' (name.toList ++ '>' :: rest) = (.bound name, rest) := by
    rw [hcs, List.cons_append]
    show afterAngle (c :: (cs ++ '>' :: rest)) = _
    simp only [afterAngle, hc, if_true, htake, hdrop, ← hcs, String.ofList_toList]
  rw [ofChars_cons (by rfl), hangle]

lemma ofChars_string {text : String} (htext : '"' ∉ text.toList) (rest : List Char) :
    ofChars ('"' :: (text.toList ++ '"' :: rest)) = .string text :: ofChars rest := by
  have hall : ∀ c ∈ text.toList, (c != '"') = true := by
    intro c hc
    simpa using fun h : c = '"' => htext (h ▸ hc)
  have hstop : ∀ d, ('"' :: rest).head? = some d → (d != '"') = false := by
    rintro d ⟨⟩
    rfl
  obtain ⟨htake, hdrop⟩ := takeWhile_dropWhile_append hall hstop
  have hquote : atFront '"' (text.toList ++ '"' :: rest) = (.string text, rest) := by
    show afterQuote (text.toList ++ '"' :: rest) = _
    simp only [afterQuote, htake, hdrop, String.ofList_toList]
  rw [ofChars_cons (by rfl), hquote]

lemma ofChars_punctuation (mark : Punctuation) (rest : List Char) :
    ofChars (mark.char :: rest) = .punctuation mark :: ofChars rest := by
  have hmark : atFront mark.char rest = (.punctuation mark, rest) := by
    cases mark <;> rfl
  rw [ofChars_cons (by cases mark <;> rfl), hmark]

end Token

end GraphRequest
