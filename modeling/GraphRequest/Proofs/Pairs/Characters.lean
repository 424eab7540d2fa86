import GraphRequest.Proofs.Pairs.Grammar
import GraphRequest.Proofs.Text.Parting
import GraphRequest.Proofs.Token.Reading

/-!
# Matching the words of a text

The rules for names, numerals, bound names, strings and words take characters, where a reader of
tokens takes a token.  For each of them it is shown what it leaves where its token is spelled out,
and that it fails where the text is scanned to another token.

* `Peg.TakesChar` — an expression that takes one character of a kind; repeated, it takes as many as
  there are (`Peg.parses_many_chars`).
* `Peg.parses_ident` and its siblings — the match of a spelling.
* `Peg.parses_ident_fail` and its siblings — where there is none.
-/

namespace GraphRequest.Peg

variable {input cs rest : List Char} {mode : Mode}

/-- Two parts that leave no pairs. -/
lemma Parses.seq_nothing {first second : Expression} {mid : List Char}
    (h : Parses input mode first cs (some (mid, [])))
    (h' : Parses input mode second (mode.skip mid) (some (rest, []))) :
    Parses input mode (.seq first second) cs (some (rest, [])) :=
  .seq h h'

/-! ## Repetition -/

/-- That an expression takes one character if it passes a test. -/
structure TakesChar (input : List Char) (mode : Mode) (inner : Expression) (p : Char → Bool) :
    Prop where
  pass : ∀ c cs, p c = true → Parses input mode inner (c :: cs) (some (cs, []))
  fail : ∀ cs, (∀ c, cs.head? = some c → p c = false) → Parses input mode inner cs none

lemma parses_further_chars {inner : Expression} {p : Char → Bool}
    (h : TakesChar input mode inner p) (hskip : ∀ cs, mode.skip cs = cs) {front : List Char}
    (hfront : ∀ c ∈ front, p c = true) (hrest : ∀ c, rest.head? = some c → p c = false) :
    Parses input mode (.further inner) (front ++ rest) (some (rest, [])) := by
  induction front with
  | nil => exact .further_none (by rw [hskip]; exact h.fail _ hrest)
  | cons c front ih =>
      obtain ⟨hc, hfront⟩ := List.forall_mem_cons.mp hfront
      have hfirst : Parses input mode inner (mode.skip (c :: front ++ rest))
          (some (front ++ rest, [])) := by
        rw [hskip]
        exact h.pass c _ hc
      exact .further_some hfirst (ih hfront)

lemma parses_many_chars {inner : Expression} {p : Char → Bool} (h : TakesChar input mode inner p)
    (hskip : ∀ cs, mode.skip cs = cs) {front : List Char} (hfront : ∀ c ∈ front, p c = true)
    (hrest : ∀ c, rest.head? = some c → p c = false) :
    Parses input mode (.many inner) (front ++ rest) (some (rest, [])) := by
  cases front with
  | nil => exact .many_none (h.fail _ hrest)
  | cons c front =>
      obtain ⟨hc, hfront⟩ := List.forall_mem_cons.mp hfront
      exact .many_some (h.pass c _ hc) (parses_further_chars h hskip hfront hrest)

lemma takesChar_single (accepted : Class) :
    TakesChar input mode (.single accepted) accepted.accepts :=
  ⟨fun _ _ h => .single h, fun _ h => .single_fail h⟩

/-- A text of one character. -/
lemma takesChar_text {word : String} {c : Char} (hword : word.toList = [c]) :
    TakesChar input mode (.text word) (· == c) := by
  refine ⟨fun d cs h => ?_, fun cs h => .text_fail fun hprefix => ?_⟩
  · obtain rfl := beq_iff_eq.mp h
    exact .text (by rw [hword]; rfl)
  · rw [hword] at hprefix
    obtain ⟨rest, rfl⟩ := hprefix
    simpa using h c rfl

lemma TakesChar.choice {first second : Expression} {p q : Char → Bool}
    (h : TakesChar input mode first p) (h' : TakesChar input mode second q) :
    TakesChar input mode (.choice first second) (fun c => p c || q c) := by
  refine ⟨fun c cs hc => ?_, fun cs hcs => ?_⟩
  · cases hp : p c with
    | true => exact .choice_first (h.pass c cs hp)
    | false =>
        have hfail : Parses input mode first (c :: cs) none := by
          refine h.fail _ fun d hd => ?_
          rw [← Option.some.inj hd]
          exact hp
        exact .choice_second hfail (h'.pass c cs (by simpa [hp] using hc))
  · have hnone : ∀ c, cs.head? = some c → p c = false ∧ q c = false :=
      fun c hc => by simpa using hcs c hc
    exact .choice_second (h.fail cs fun c hc => (hnone c hc).1)
      (h'.fail cs fun c hc => (hnone c hc).2)

/-- A rule that leaves no pair of its own. -/
lemma TakesChar.rule {symbol : Symbol} {p : Char → Bool} (hkind : symbol.kind = .silent)
    (h : TakesChar input mode symbol.expression p) : TakesChar input mode (.rule symbol) p := by
  have hinside : symbol.kind.inside mode = mode := by rw [hkind]; rfl
  have hpairs : ∀ span, symbol.pairs mode span [] = [] := by
    intro span
    simp only [Symbol.pairs, hkind]
  refine ⟨fun c cs hc => ?_, fun cs hcs => .rule_fail (by rw [hinside]; exact h.fail cs hcs)⟩
  have hrule := Parses.rule (by rw [hinside]; exact h.pass c cs hc)
  rwa [hpairs] at hrule

lemma TakesChar.congr {inner : Expression} {p q : Char → Bool} (h : TakesChar input mode inner p)
    (heq : ∀ c, p c = q c) : TakesChar input mode inner q := by
  obtain rfl : p = q := funext heq
  exact h

lemma takesChar_identChar : TakesChar input mode (.rule .identChar) isNameChar := by
  have hunderscore : TakesChar input mode (.text "_") (· == '_') := takesChar_text rfl
  refine (TakesChar.rule rfl (((takesChar_single .letter).choice (takesChar_single .digit)).choice
    hunderscore)).congr fun c => ?_
  simp only [Class.accepts, isNameChar, Char.isAlphanum]

lemma takesChar_nameStart :
    TakesChar input mode (.choice (.single .letter) (.text "_")) isNameStart := by
  have hunderscore : TakesChar input mode (.text "_") (· == '_') := takesChar_text rfl
  exact (takesChar_single .letter).choice hunderscore

lemma takesChar_blank : TakesChar input mode (.rule .blank) Char.isWhitespace := by
  have hspace : TakesChar input mode (.text " ") (· == ' ') := takesChar_text rfl
  have htab : TakesChar input mode (.text "\t") (· == '\t') := takesChar_text rfl
  have hreturn : TakesChar input mode (.text "\r") (· == '\r') := takesChar_text rfl
  have hline : TakesChar input mode (.text "\n") (· == '\n') := takesChar_text rfl
  refine (TakesChar.rule rfl (hspace.choice (htab.choice (hreturn.choice hline)))).congr
    fun c => ?_
  simp [Char.isWhitespace, Bool.beq_eq_decide_eq, Bool.or_assoc]

/-- Every character but a quotation mark. -/
lemma takesChar_notQuote (hskip : ∀ cs, mode.skip cs = cs) :
    TakesChar input mode (.seq (.notAhead (.text "\"")) (.single .any)) (· != '"') := by
  have hquote : TakesChar input mode (.text "\"") (· == '"') := takesChar_text rfl
  refine ⟨fun c cs hc => ?_, fun cs hcs => ?_⟩
  · have hnone : Parses input mode (.text "\"") (c :: cs) none := by
      refine hquote.fail _ fun d hd => ?_
      rw [← Option.some.inj hd]
      simpa using hc
    refine .seq_nothing (.notAhead hnone) ?_
    rw [hskip]
    exact .single rfl
  · cases cs with
    | nil =>
        have hnone : Parses input mode (.text "\"") [] none := hquote.fail [] (by rintro c ⟨⟩)
        refine .seq_fail_second (.notAhead hnone) ?_
        rw [hskip]
        exact .single_fail (by rintro c ⟨⟩)
    | cons c cs =>
        have hc : c = '"' := by simpa using hcs c rfl
        exact .seq_fail_first (.notAhead_fail (hquote.pass c cs (beq_iff_eq.mpr hc)))

/-! ## Names, numerals and strings -/

/-- Inside a rule that takes blanks as they are nothing is skipped. -/
lemma skip_compound (cs : List Char) : Mode.compound.skip cs = cs := rfl

lemma skip_atomic (cs : List Char) : Mode.atomic.skip cs = cs := rfl

lemma parses_ident {name : String} (hmode : mode ≠ .atomic) (hname : IsName name)
    (hrest : NameEnds rest) :
    Parses input mode (.rule .ident) (name.toList ++ rest)
      (some (rest, [.mk .ident ⟨name.toList ++ rest, rest⟩ []])) := by
  obtain ⟨c, cs, hcs, hc, hall⟩ := hname
  have hinner : Parses input .atomic Symbol.ident.expression (name.toList ++ rest)
      (some (rest, [])) := by
    rw [hcs]
    exact .seq (takesChar_nameStart.pass c _ hc)
      (parses_many_chars takesChar_identChar skip_atomic hall hrest)
  have hpairs : Symbol.ident.pairs mode ⟨name.toList ++ rest, rest⟩ []
      = [.mk .ident ⟨name.toList ++ rest, rest⟩ []] := by
    cases mode with
    | atomic => exact absurd rfl hmode
    | spaced => rfl
    | compound => rfl
  rw [← hpairs]
  exact .rule hinner

lemma parses_ident_fail_of_head (h : ∀ c, cs.head? = some c → isNameStart c = false) :
    Parses input mode (.rule .ident) cs none :=
  .rule_fail (.seq_fail_first (takesChar_nameStart.fail cs h))

/-- A text begins with a name, or with no character of one. -/
lemma name_or_not (cs : List Char) :
    (∃ name rest, IsName name ∧ NameEnds rest ∧ cs = name.toList ++ rest)
      ∨ ∀ c, cs.head? = some c → isNameStart c = false := by
  cases cs with
  | nil => exact Or.inr (by rintro c ⟨⟩)
  | cons c cs =>
      by_cases hc : isNameStart c = true
      · refine Or.inl ⟨String.ofList (c :: cs.takeWhile isNameChar), cs.dropWhile isNameChar,
          Token.isName_ofList hc fun d hd => List.mem_takeWhile_imp hd,
          fun d hd => head?_dropWhile_eq_false hd, ?_⟩
        rw [String.toList_ofList, List.cons_append, List.takeWhile_append_dropWhile]
      · refine Or.inr fun d hd => ?_
        rw [← Option.some.inj hd]
        simpa using hc

lemma parses_ident_fail (h : ∀ name rest, Token.ofChars cs ≠ .ident name :: rest) :
    Parses input mode (.rule .ident) cs none := by
  rcases name_or_not cs with ⟨name, rest, hname, hends, rfl⟩ | hnot
  · exact absurd (Token.ofChars_ident hname hends) (h _ _)
  · exact parses_ident_fail_of_head hnot

lemma parses_bound {name : String} (hname : IsName name) :
    Parses input .spaced (.rule .bound) ('<' :: (name.toList ++ '>' :: rest))
      (some (rest, [.mk .bound ⟨'<' :: (name.toList ++ '>' :: rest), rest⟩
        [.mk .ident ⟨name.toList ++ '>' :: rest, '>' :: rest⟩ []]])) := by
  have hopening : Parses input .compound (.text "<") ('<' :: (name.toList ++ '>' :: rest))
      (some (name.toList ++ '>' :: rest, [])) := .text rfl
  have hclosing : Parses input .compound (.text ">") ('>' :: rest) (some (rest, [])) := .text rfl
  have hident : Parses input .compound (.rule .ident) (name.toList ++ '>' :: rest)
      (some ('>' :: rest, [.mk .ident ⟨name.toList ++ '>' :: rest, '>' :: rest⟩ []])) :=
    parses_ident (by decide) hname (nameEnds_cons.mpr rfl)
  have hinner : Parses input .compound Symbol.bound.expression
      ('<' :: (name.toList ++ '>' :: rest)) _ := .seq hopening (.seq hident hclosing)
  exact .rule hinner

lemma parses_bound_fail (h : ∀ name rest, Token.ofChars cs ≠ .bound name :: rest) :
    Parses input .spaced (.rule .bound) cs none := by
  refine .rule_fail ?_
  by_cases hopening : "<".toList <+: cs
  · obtain ⟨cs, rfl⟩ := hopening
    refine .seq_fail_second (.text rfl) ?_
    rcases name_or_not cs with ⟨name, rest, hname, hends, rfl⟩ | hnone
    · refine .seq_fail_second (parses_ident (by decide) hname hends) (.text_fail ?_)
      rintro ⟨rest, rfl⟩
      exact h name _ (Token.ofChars_bound hname rest)
    · exact .seq_fail_first (parses_ident_fail_of_head hnone)
  · exact .seq_fail_first (.text_fail hopening)

lemma parses_number {digits : String} (hdigits : IsNumeral digits)
    (hrest : ∀ c, rest.head? = some c → c.isDigit = false) :
    Parses input .spaced (.rule .number) (digits.toList ++ rest)
      (some (rest, [.mk .number ⟨digits.toList ++ rest, rest⟩ []])) := by
  obtain ⟨hne, hall⟩ := hdigits
  obtain ⟨c, cs, hcs⟩ := List.exists_cons_of_ne_nil hne
  rw [hcs] at hall ⊢
  obtain ⟨hc, hall⟩ := List.forall_mem_cons.mp hall
  have hinner : Parses input .atomic Symbol.number.expression (c :: cs ++ rest)
      (some (rest, [])) :=
    .seq ((takesChar_single .digit).pass c _ hc)
      (parses_many_chars (takesChar_single .digit) skip_atomic hall hrest)
  exact .rule hinner

lemma parses_number_fail (h : ∀ digits rest, Token.ofChars cs ≠ .number digits :: rest) :
    Parses input .spaced (.rule .number) cs none := by
  refine .rule_fail (.seq_fail_first ((takesChar_single .digit).fail cs fun c hc => ?_))
  cases hdigit : Class.digit.accepts c with
  | false => rfl
  | true =>
      -- the digits from here on are a numeral, which would have been scanned
      obtain ⟨cs, rfl⟩ : ∃ rest, cs = c :: rest := List.head?_eq_some_iff.mp hc
      have hnumeral : IsNumeral (String.ofList (c :: cs.takeWhile Char.isDigit)) := by
        refine ⟨by simp, fun d hd => ?_⟩
        rw [String.toList_ofList] at hd
        rcases List.mem_cons.mp hd with rfl | hd
        · exact hdigit
        · exact List.mem_takeWhile_imp hd
      have hends : ∀ d, (cs.dropWhile Char.isDigit).head? = some d → d.isDigit = false :=
        fun d hd => head?_dropWhile_eq_false hd
      have hscan := Token.ofChars_number hnumeral hends
      rw [String.toList_ofList, List.cons_append, List.takeWhile_append_dropWhile] at hscan
      exact absurd hscan (h _ _)

lemma parses_string {text : String} (htext : '"' ∉ text.toList) :
    Parses input .spaced (.rule .string) ('"' :: (text.toList ++ '"' :: rest))
      (some (rest, [.mk .string ⟨'"' :: (text.toList ++ '"' :: rest), rest⟩
        [.mk .stringInner ⟨text.toList ++ '"' :: rest, '"' :: rest⟩ []]])) := by
  have hopening : Parses input .compound (.text "\"") ('"' :: (text.toList ++ '"' :: rest))
      (some (text.toList ++ '"' :: rest, [])) := .text rfl
  have hclosing : Parses input .compound (.text "\"") ('"' :: rest) (some (rest, [])) := .text rfl
  have hall : ∀ c ∈ text.toList, (c != '"') = true := by
    intro c hc
    simpa using fun heq : c = '"' => htext (heq ▸ hc)
  have hinside : Parses input .atomic Symbol.stringInner.expression (text.toList ++ '"' :: rest)
      (some ('"' :: rest, [])) :=
    parses_many_chars (takesChar_notQuote skip_atomic) skip_atomic hall (by rintro c ⟨⟩; rfl)
  have hinner : Parses input .compound Symbol.string.expression
      ('"' :: (text.toList ++ '"' :: rest)) _ := .seq hopening (.seq (.rule hinside) hclosing)
  exact .rule hinner

lemma parses_string_fail (h : ∀ text rest, Token.ofChars cs ≠ .string text :: rest) :
    Parses input .spaced (.rule .string) cs none := by
  refine .rule_fail ?_
  by_cases hopening : "\"".toList <+: cs
  · obtain ⟨cs, rfl⟩ := hopening
    refine .seq_fail_second (.text rfl) ?_
    obtain ⟨text, rest, htext, hends, rfl⟩ : ∃ text rest : List Char,
        (∀ c ∈ text, (c != '"') = true) ∧ (∀ c, rest.head? = some c → (c != '"') = false)
          ∧ cs = text ++ rest :=
      ⟨cs.takeWhile (· != '"'), cs.dropWhile (· != '"'),
        fun c hc => List.mem_takeWhile_imp (p := (· != '"')) hc,
        fun c hc => head?_dropWhile_eq_false (p := (· != '"')) hc,
        List.takeWhile_append_dropWhile.symm⟩
    have hinside : Parses input .atomic Symbol.stringInner.expression (text ++ rest)
        (some (rest, [])) :=
      parses_many_chars (takesChar_notQuote skip_atomic) skip_atomic htext hends
    refine .seq_fail_second (.rule hinside) (.text_fail ?_)
    rintro ⟨rest, rfl⟩
    have hquote : '"' ∉ (String.ofList text).toList := by
      rw [String.toList_ofList]
      exact fun hmem => by simpa using htext _ hmem
    have hscan := Token.ofChars_string hquote rest
    rw [String.toList_ofList] at hscan
    exact h _ _ hscan
  · exact .seq_fail_first (.text_fail hopening)

/-! ## Words -/

/-- A word is matched where no longer one stands. -/
lemma parses_keyword {word : String} (hskip : ∀ cs, mode.skip cs = cs) (hrest : NameEnds rest) :
    Parses input mode (keyword word) (word.toList ++ rest) (some (rest, [])) := by
  refine .seq_nothing (.text rfl) ?_
  rw [hskip]
  exact .notAhead (takesChar_identChar.fail rest hrest)

lemma parses_keyword_fail {word : String} (hskip : ∀ cs, mode.skip cs = cs)
    (h : ∀ rest, cs = word.toList ++ rest → ¬ NameEnds rest) :
    Parses input mode (keyword word) cs none := by
  by_cases hword : word.toList <+: cs
  · obtain ⟨rest, rfl⟩ := hword
    refine .seq_fail_second (.text rfl) ?_
    rw [hskip]
    cases rest with
    | nil => exact absurd (by rintro c ⟨⟩) (h [] rfl)
    | cons c rest =>
        have hc : isNameChar c = true := by simpa using h (c :: rest) rfl
        exact .notAhead_fail (takesChar_identChar.pass c rest hc)
  · exact .seq_fail_first (.text_fail hword)

end GraphRequest.Peg
