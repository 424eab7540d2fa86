import GraphRequest.Proofs.Pairs.Building
import GraphRequest.Proofs.Pairs.Characters
import GraphRequest.Proofs.Phrase.Reading

/-!
# Matching characters and reading tokens

A request is read from tokens, and blanks are gone by then.  Matching by rules works on the
characters.  The two agree, rule by rule: wherever no blank is ahead, what is read from the tokens
of the text ahead tells what the rule comes to, and the pairs it leaves stand for what was read.

* `Peg.Simulates` — that a rule and a reader agree, on texts of so many tokens.
* `Peg.Simulates.bind` and its companions — sequences, choices and repetitions agree if their parts
  do.  A part that takes a token leaves fewer of them, which is what nested nodes need.
* `Peg.simulates_node` — nodes agree, by induction on the number of tokens.
* `Peg.request_of_pairs` — hence matching a text comes to one outcome, and that settles the request
  (`Peg.Settles`): what is built from the pairs is what is read, and building does not panic.
-/

namespace GraphRequest

/-! ## The first token of a text -/

namespace Token

/-- That a text does not go on with a token: a name or a numeral is taken as far as it goes. -/
def Ends : Token → List Char → Prop
  | .ident _, rest => NameEnds rest
  | .number _, rest => ∀ c, rest.head? = some c → c.isDigit = false
  | _, _ => True

lemma ends_afterAngle (cs : List Char) : (afterAngle cs).1.Ends (afterAngle cs).2 := by
  unfold afterAngle
  split
  · trivial
  · split
    · split <;> trivial
    · trivial

lemma ends_afterQuote (cs : List Char) : (afterQuote cs).1.Ends (afterQuote cs).2 := by
  rw [afterQuote]
  split <;> trivial

lemma ends_atFront (c : Char) (cs : List Char) : (atFront c cs).1.Ends (atFront c cs).2 := by
  rw [atFront]
  split
  · exact fun d hd => head?_dropWhile_eq_false hd
  split
  · exact fun d hd => head?_dropWhile_eq_false hd
  split
  · exact ends_afterQuote cs
  split
  · exact ends_afterAngle cs
  · split <;> trivial

end Token

namespace Peg

open GraphRequest.Derivation

/-- That no blank is ahead. -/
def Unblank (cs : List Char) : Prop :=
  ∀ c, cs.head? = some c → c.isWhitespace = false

lemma unblank_skip (cs : List Char) : Unblank (Mode.spaced.skip cs) :=
  fun _ hc => head?_dropWhile_eq_false hc

/-- What goes on with a name does not begin with a blank. -/
lemma unblank_of_not_nameEnds {cs : List Char} (h : ¬ NameEnds cs) : Unblank cs := by
  cases cs with
  | nil => rintro c ⟨⟩
  | cons c cs =>
      rintro d ⟨⟩
      exact isWhitespace_of_isNameChar (by simpa using h)

lemma skip_eq_self {cs : List Char} (h : Unblank cs) : Mode.spaced.skip cs = cs := by
  cases cs with
  | nil => rfl
  | cons c cs => exact List.dropWhile_cons_of_neg (by simp [h c rfl])

lemma ofChars_skip (cs : List Char) : Token.ofChars (Mode.spaced.skip cs) = Token.ofChars cs := by
  induction cs with
  | nil => rfl
  | cons c cs ih =>
      by_cases hc : c.isWhitespace = true
      · rw [Token.ofChars_blank hc, ← ih, Mode.skip, List.dropWhile_cons_of_pos hc]
        rfl
      · rw [Mode.skip, List.dropWhile_cons_of_neg hc]

/-- The first token of a text stands at its front, if no blank does. -/
lemma spelled_of_ofChars {cs : List Char} (hcs : Unblank cs) {token : Token} {tokens : List Token}
    (h : Token.ofChars cs = token :: tokens) :
    ∃ rest, cs = token.spelling ++ rest ∧ Token.ofChars rest = tokens ∧ token.Proper
      ∧ token.Ends rest := by
  cases cs with
  | nil => simp at h
  | cons c cs =>
      rw [Token.ofChars_cons (hcs c rfl), List.cons.injEq] at h
      obtain ⟨rfl, rfl⟩ := h
      exact ⟨_, (Token.spelling_atFront c cs).symm, rfl, Token.proper_atFront c cs,
        Token.ends_atFront c cs⟩

/-! ## Agreement -/

variable {input : List Char} {α β : Type}

/-- What matching an expression comes to, told by what was read: at least `taken` tokens are gone,
    and the pairs stand for the value. -/
inductive Agrees (input : List Char) (taken : Nat) (expression : Expression)
    (stands : α → List Pair → Prop) (cs : List Char) : Option (α × List Token) → Prop
  | fails (hfail : Parses input .spaced expression cs none) :
      Agrees input taken expression stands cs none
  | passes {x : α} {rest : List Char} {pairs : List Pair}
      (hpass : Parses input .spaced expression cs (some (rest, pairs)))
      (htaken : (Token.ofChars rest).length + taken ≤ (Token.ofChars cs).length)
      (hstands : stands x pairs) :
      Agrees input taken expression stands cs (some (x, Token.ofChars rest))

/-- That a reader agrees with an expression, wherever no blank and no more than `limit` tokens are
    ahead. -/
def Simulates (input : List Char) (limit taken : Nat) (expression : Expression) (reader : Reader α)
    (stands : α → List Pair → Prop) : Prop :=
  ∀ cs, Unblank cs → (Token.ofChars cs).length ≤ limit →
    Agrees input taken expression stands cs (reader (Token.ofChars cs)).value

/-- That a pair stands alone. -/
def Alone (stands : α → Pair → Prop) (x : α) (pairs : List Pair) : Prop :=
  ∃ pair, pairs = [pair] ∧ stands x pair

/-- What leaves no pairs. -/
def Nothing (_ : α) (pairs : List Pair) : Prop :=
  pairs = []

section

variable {limit taken taken' : Nat} {expression expression' : Expression}
  {reader reader' : Reader α} {stands : α → List Pair → Prop}

/-- Agreement on longer texts is agreement on shorter ones. -/
lemma Simulates.weaken (h : Simulates input limit taken expression reader stands) {limit' : Nat}
    (hlimit : limit' ≤ limit) (htaken : taken' ≤ taken) :
    Simulates input limit' taken' expression reader stands := by
  intro cs hcs hlength
  have hcs' := h cs hcs (hlength.trans hlimit)
  generalize (reader (Token.ofChars cs)).value = read at hcs' ⊢
  cases hcs' with
  | fails hfail => exact .fails hfail
  | passes hpass hless hx => exact .passes hpass (by omega) hx

lemma Simulates.imp (h : Simulates input limit taken expression reader stands)
    {stands' : α → List Pair → Prop} (hstands : ∀ x pairs, stands x pairs → stands' x pairs) :
    Simulates input limit taken expression reader stands' := by
  intro cs hcs hlength
  have hcs' := h cs hcs hlength
  generalize (reader (Token.ofChars cs)).value = read at hcs' ⊢
  cases hcs' with
  | fails hfail => exact .fails hfail
  | passes hpass hless hx => exact .passes hpass hless (hstands _ _ hx)

lemma Simulates.map (h : Simulates input limit taken expression reader stands) {f : α → β}
    {stands' : β → List Pair → Prop} (hstands : ∀ x pairs, stands x pairs → stands' (f x) pairs) :
    Simulates input limit taken expression (f <$> reader) stands' := by
  intro cs hcs hlength
  have hcs' := h cs hcs hlength
  rw [Reader.value_map]
  generalize (reader (Token.ofChars cs)).value = read at hcs' ⊢
  cases hcs' with
  | fails hfail => exact .fails hfail
  | passes hpass hless hx => exact .passes hpass hless (hstands _ _ hx)

/-- **One part and then another.**  The second part has only the tokens that the first one left. -/
lemma Simulates.bind (h : Simulates input limit taken expression reader stands)
    {next : α → Reader β} {stands' : α → β → List Pair → Prop}
    (hnext : ∀ x limit', limit' + taken ≤ limit →
      Simulates input limit' taken' expression' (next x) (stands' x)) :
    Simulates input limit (taken + taken') (.seq expression expression') (reader >>= next)
      fun y pairs => ∃ x before after, pairs = before ++ after ∧ stands x before
        ∧ stands' x y after := by
  intro cs hcs hlength
  have hcs' := h cs hcs hlength
  rw [Reader.value_bind]
  generalize (reader (Token.ofChars cs)).value = read at hcs' ⊢
  cases hcs' with
  | fails hfail => exact .fails (.seq_fail_first hfail)
  | @passes x rest before hpass hless hx =>
      have hrest := hnext x (Token.ofChars rest).length (by omega) (Mode.spaced.skip rest)
        (unblank_skip rest) (by rw [ofChars_skip])
      rw [ofChars_skip] at hrest
      show Agrees _ _ _ _ _ ((next x) (Token.ofChars rest)).value
      generalize (next x (Token.ofChars rest)).value = read at hrest ⊢
      cases hrest with
      | fails hfail => exact .fails (.seq_fail_second hpass hfail)
      | @passes y rest' after hpass' hless' hy =>
          rw [ofChars_skip] at hless'
          exact .passes (.seq hpass hpass') (by omega) ⟨x, before, after, rfl, hx, hy⟩

/-- A first part that leaves no pairs. -/
lemma Simulates.after (h : Simulates input limit taken expression reader Nothing)
    {next : α → Reader β} {stands' : β → List Pair → Prop}
    (hnext : ∀ x limit', limit' + taken ≤ limit →
      Simulates input limit' taken' expression' (next x) stands') :
    Simulates input limit (taken + taken') (.seq expression expression') (reader >>= next)
      stands' := by
  refine (h.bind hnext).imp ?_
  rintro y pairs ⟨x, before, after, rfl, rfl, hy⟩
  exact hy

/-- A last part that leaves no pairs and has no say in the value. -/
lemma Simulates.before (h : Simulates input limit taken expression reader stands)
    {closing : Reader β} (hclosing : ∀ limit', Simulates input limit' taken' expression' closing
      Nothing) :
    Simulates input limit taken (.seq expression expression')
      (do let x ← reader; let _ ← closing; return x) stands := by
  have hnext : ∀ (x : α) limit', limit' + taken ≤ limit → Simulates input limit' taken' expression'
      ((fun _ => x) <$> closing) fun y pairs => y = x ∧ pairs = [] :=
    fun x limit' _ => (hclosing limit').map fun _ _ hpairs => ⟨rfl, hpairs⟩
  refine ((h.bind hnext).weaken le_rfl (Nat.le_add_right _ _)).imp ?_
  rintro y pairs ⟨x, before, after, rfl, hx, rfl, rfl⟩
  rwa [List.append_nil]

lemma Simulates.orElse (h : Simulates input limit taken expression reader stands)
    (h' : Simulates input limit taken expression' reader' stands) :
    Simulates input limit taken (.choice expression expression') (reader <|> reader') stands := by
  intro cs hcs hlength
  have hfirst := h cs hcs hlength
  have hsecond := h' cs hcs hlength
  rw [Reader.value_orElse]
  generalize (reader (Token.ofChars cs)).value = read at hfirst ⊢
  generalize (reader' (Token.ofChars cs)).value = read' at hsecond ⊢
  cases hfirst with
  | passes hpass hless hx => exact .passes (.choice_first hpass) hless hx
  | fails hfail =>
      cases hsecond with
      | fails hfail' => exact .fails (.choice_second hfail hfail')
      | passes hpass hless hx => exact .passes (.choice_second hfail hpass) hless hx

/-- A part that may be missing. -/
lemma Simulates.orPure (h : Simulates input limit taken expression reader stands) {x : α}
    (hx : stands x []) :
    Simulates input limit 0 (.optional expression) (reader <|> pure x) stands := by
  intro cs hcs hlength
  have hcs' := h cs hcs hlength
  rw [Reader.value_orElse, Reader.value_pure]
  generalize (reader (Token.ofChars cs)).value = read at hcs' ⊢
  cases hcs' with
  | fails hfail => exact .passes (.optional_none hfail) le_rfl hx
  | passes hpass hless hy => exact .passes (.optional_some hpass) (by omega) hy

/-! ### Repetition -/

variable {stand : α → Pair → Prop}

/-- Rounds, each of which takes a token, so that no more of them are left than tokens. -/
lemma Simulates.further (h : Simulates input limit 1 expression reader (Alone stand))
    {rounds : Nat} {cs : List Char} (hlength : (Token.ofChars cs).length ≤ limit)
    (hrounds : (Token.ofChars cs).length ≤ rounds) :
    Agrees input 0 (.further expression) (List.Forall₂ stand) cs
      (Reader.manyUpTo reader rounds (Token.ofChars cs)).value := by
  induction rounds generalizing cs with
  | zero =>
      have hround := h _ (unblank_skip cs) (by rwa [ofChars_skip])
      generalize (reader _).value = read at hround
      cases hround with
      | fails hfail => exact .passes (.further_none hfail) le_rfl .nil
      | passes _ hless _ =>
          rw [ofChars_skip] at hless
          omega
  | succ rounds ih =>
      have hround := h _ (unblank_skip cs) (by rwa [ofChars_skip])
      rw [ofChars_skip] at hround
      rw [Reader.manyUpTo, Reader.value_orElse, Reader.value_bind, Reader.value_pure]
      generalize (reader (Token.ofChars cs)).value = read at hround ⊢
      cases hround with
      | fails hfail => exact .passes (.further_none hfail) le_rfl .nil
      | @passes x rest pairs hpass hless hx =>
          rw [ofChars_skip] at hless
          have hrest : Agrees input 0 (.further expression) (List.Forall₂ stand) rest
              (Reader.manyUpTo reader rounds (Token.ofChars rest)).value :=
            ih (by omega) (by omega)
          obtain ⟨pair, rfl, hpair⟩ := hx
          simp only [Option.bind_some, Reader.value_bind, Reader.value_pure]
          generalize (Reader.manyUpTo reader rounds (Token.ofChars rest)).value = read at hrest ⊢
          cases hrest with
          | fails hfail => cases hfail
          | passes hpass' hless' hxs =>
              exact .passes (.further_some hpass hpass') (by omega) (.cons hpair hxs)

lemma Simulates.many (h : Simulates input limit 1 expression reader (Alone stand)) :
    Simulates input limit 0 (.many expression) (Reader.many reader) (List.Forall₂ stand) := by
  intro cs hcs hlength
  have hfurther := h.further hlength le_rfl
  rw [Reader.many]
  generalize (Reader.manyUpTo reader _ _).value = read at hfurther ⊢
  cases hfurther with
  | fails hfail => cases hfail
  | passes hpass hless hxs =>
      refine .passes ?_ hless hxs
      cases hpass with
      | further_none h => exact .many_none (by rwa [skip_eq_self hcs] at h)
      | further_some h h' => exact .many_some (by rwa [skip_eq_self hcs] at h) h'

end

/-! ## Single tokens -/

lemma simulates_mark (limit : ℕ) (mark : Punctuation) {word : String}
    (hword : word.toList = [mark.char]) :
    Simulates input limit 1 (.text word) (Reader.punctuation mark) Nothing := by
  intro cs hcs _
  cases hread : (Reader.punctuation mark (Token.ofChars cs)).value with
  | none =>
      refine .fails (.text_fail ?_)
      rintro ⟨rest, rfl⟩
      rw [hword, List.singleton_append, Token.ofChars_punctuation,
        Reader.value_punctuation_cons] at hread
      cases hread
  | some read =>
      obtain ⟨⟨⟩, tokens⟩ := read
      have hscan := (Reader.value_punctuation mark _ _).mp hread
      obtain ⟨rest, rfl, rfl, -⟩ := spelled_of_ofChars hcs hscan
      exact .passes (.text (by rw [hword]; rfl)) (by rw [hscan]; rfl) rfl

/-- A reader of one kind of tokens. -/
lemma simulates_token {limit : ℕ} {expression : Expression} {reader : Reader α}
    (token : α → Token) {stand : α → Pair → Prop}
    (hreader : ∀ tokens x rest,
      (reader tokens).value = some (x, rest) ↔ tokens = token x :: rest)
    (hpass : ∀ x rest, (token x).Proper → (token x).Ends rest → ∃ pair, stand x pair
      ∧ Parses input .spaced expression ((token x).spelling ++ rest) (some (rest, [pair])))
    (hfail : ∀ cs, Unblank cs → (∀ x rest, Token.ofChars cs ≠ token x :: rest) →
      Parses input .spaced expression cs none) :
    Simulates input limit 1 expression reader (Alone stand) := by
  intro cs hcs _
  cases hread : (reader (Token.ofChars cs)).value with
  | none =>
      refine .fails (hfail cs hcs fun x rest hscan => ?_)
      rw [(hreader _ _ _).mpr hscan] at hread
      cases hread
  | some read =>
      obtain ⟨x, tokens⟩ := read
      have hscan := (hreader _ _ _).mp hread
      obtain ⟨rest, rfl, rfl, hproper, hends⟩ := spelled_of_ofChars hcs hscan
      obtain ⟨pair, hpair, hparse⟩ := hpass x rest hproper hends
      exact .passes hparse (by rw [hscan]; rfl) ⟨pair, rfl, hpair⟩

lemma simulates_ident (limit : ℕ) :
    Simulates input limit 1 (.rule .ident) Phrase.ident (Alone IdentPair) :=
  simulates_token Token.ident (fun _ _ _ => Phrase.ident_iff)
    (fun name rest hproper hends =>
      ⟨_, .mk (Span.text_eq rfl), parses_ident (by decide) hproper hends⟩)
    fun cs _ hnone => parses_ident_fail hnone

lemma simulates_bound (limit : ℕ) :
    Simulates input limit 1 (.rule .bound) Phrase.bound
      (Alone fun name => ValuePair (.bound name)) := by
  refine simulates_token Token.bound (fun tokens name rest => ?_) (fun name rest hproper _ => ?_)
    fun cs _ hnone => parses_bound_fail hnone
  · cases tokens with
    | nil => simp
    | cons front tokens => cases front <;> simp
  · have hparse : Parses input .spaced (.rule .bound) ('<' :: (name.toList ++ '>' :: rest)) _ :=
      parses_bound hproper
    have hspelling : (Token.bound name).spelling ++ rest = '<' :: (name.toList ++ '>' :: rest) := by
      simp [Token.spelling]
    rw [hspelling]
    exact ⟨_, .bound (.mk (Span.text_eq rfl)) (Span.text_eq (by simp)), hparse⟩

lemma simulates_number (limit : ℕ) :
    Simulates input limit 1 (.rule .number) Phrase.number
      (Alone fun digits => ValuePair (.number digits)) := by
  refine simulates_token Token.number (fun tokens digits rest => ?_)
    (fun digits rest hproper hends => ?_) fun cs _ hnone => parses_number_fail hnone
  · cases tokens with
    | nil => simp [Phrase.number]
    | cons front tokens => cases front <;> simp [Phrase.number]
  · exact ⟨_, .number (Span.text_eq rfl), parses_number hproper hends⟩

lemma simulates_string (limit : ℕ) :
    Simulates input limit 1 (.rule .string) Phrase.string
      (Alone fun text => ValuePair (.string text)) := by
  refine simulates_token Token.string (fun tokens text rest => ?_) (fun text rest hproper _ => ?_)
    fun cs _ hnone => parses_string_fail hnone
  · cases tokens with
    | nil => simp [Phrase.string]
    | cons front tokens => cases front <;> simp [Phrase.string]
  · have hparse : Parses input .spaced (.rule .string) ('"' :: (text.toList ++ '"' :: rest)) _ :=
      parses_string hproper
    have hspelling : (Token.string text).spelling ++ rest
        = '"' :: (text.toList ++ '"' :: rest) := by
      simp [Token.spelling]
    rw [hspelling]
    exact ⟨_, .string (Span.text_eq rfl) (Span.text_eq (by simp)), hparse⟩

/-- A word with something behind it that cannot begin with more of a name. -/
lemma Simulates.afterWord {limit taken : ℕ} {expression : Expression} {reader : Reader α}
    {stands : α → List Pair → Prop} {word : String} (hword : IsName word)
    (h : ∀ limit', limit' + 1 ≤ limit →
      Simulates input limit' taken expression reader stands)
    (hfails : ∀ cs, ¬ NameEnds cs → Parses input .spaced expression cs none) :
    Simulates input limit (1 + taken) (.seq (.text word) expression)
      (do Reader.word word; reader) stands := by
  intro cs hcs hlength
  rw [Reader.value_bind]
  cases hread : (Reader.word word (Token.ofChars cs)).value with
  | none =>
      refine .fails ?_
      by_cases hprefix : word.toList <+: cs
      · obtain ⟨rest, rfl⟩ := hprefix
        have hgoes : ¬ NameEnds rest := by
          intro hends
          rw [Token.ofChars_ident hword hends, Reader.value_word_cons] at hread
          cases hread
        refine .seq_fail_second (.text rfl) ?_
        rw [skip_eq_self (unblank_of_not_nameEnds hgoes)]
        exact hfails rest hgoes
      · exact .seq_fail_first (.text_fail hprefix)
  | some read =>
      obtain ⟨⟨⟩, tokens⟩ := read
      have hscan := (Reader.value_word word _ _).mp hread
      obtain ⟨rest, rfl, rfl, -⟩ := spelled_of_ofChars hcs hscan
      rw [hscan, List.length_cons] at hlength
      have hrest := h (Token.ofChars rest).length hlength (Mode.spaced.skip rest)
        (unblank_skip rest) (by rw [ofChars_skip])
      rw [ofChars_skip] at hrest
      show Agrees _ _ _ _ _ (reader (Token.ofChars rest)).value
      generalize (reader (Token.ofChars rest)).value = read at hrest ⊢
      cases hrest with
      | fails hfail => exact .fails (.seq_fail_second (.text rfl) hfail)
      | @passes y rest' after hpass hless hy =>
          rw [ofChars_skip] at hless
          refine .passes (.seq (.text rfl) hpass) ?_ hy
          rw [hscan, List.length_cons]
          omega

/-- The text of a keyword is scanned to it exactly where the keyword is matched. -/
lemma keyword_or_not (input : List Char) {word : String} (hword : IsName word) {cs : List Char}
    (hcs : Unblank cs) {mode : Mode} (hskip : ∀ cs, mode.skip cs = cs) :
    (∃ rest, Token.ofChars cs = .ident word :: Token.ofChars rest
        ∧ Parses input mode (keyword word) cs (some (rest, [])))
      ∨ (∀ tokens, Token.ofChars cs ≠ .ident word :: tokens)
        ∧ Parses input mode (keyword word) cs none := by
  by_cases hscan : ∃ tokens, Token.ofChars cs = .ident word :: tokens
  · obtain ⟨tokens, hscan⟩ := hscan
    obtain ⟨rest, rfl, rfl, -, hends⟩ := spelled_of_ofChars hcs hscan
    exact Or.inl ⟨rest, hscan, parses_keyword hskip hends⟩
  · refine Or.inr ⟨fun tokens h => hscan ⟨tokens, h⟩, parses_keyword_fail hskip ?_⟩
    rintro rest rfl hends
    exact hscan ⟨_, Token.ofChars_ident hword hends⟩

/-- The pair of a directive. -/
def DirectivePair (directive : Directive) (pair : Pair) : Prop :=
  ∃ span, pair = .mk (directiveSymbol directive) span []

lemma simulates_directiveWord (limit : ℕ) (rule : Rule) (directive : Directive) :
    Simulates input limit 1 (.rule (directiveSymbol directive))
      (Phrase.directiveWord rule directive) (Alone DirectivePair) := by
  have hkind : (directiveSymbol directive).kind = .atomic := by cases directive <;> rfl
  have hexpression : (directiveSymbol directive).expression = keyword directive.word := by
    cases directive <;> rfl
  have hpairs : ∀ span, (directiveSymbol directive).pairs .spaced span []
      = [.mk (directiveSymbol directive) span []] := by
    intro span
    cases directive <;> rfl
  intro cs hcs _
  rcases keyword_or_not input (isName_word directive) hcs skip_atomic with
    ⟨rest, hscan, hkeyword⟩ | ⟨hnone, hkeyword⟩
  · have hread : (Phrase.directiveWord rule directive (Token.ofChars cs)).value
        = some (directive, Token.ofChars rest) := by
      rw [hscan, Phrase.value_directiveWord_cons, if_pos rfl]
    have hrule : Parses input .spaced (.rule (directiveSymbol directive)) cs
        (some (rest, (directiveSymbol directive).pairs .spaced ⟨cs, rest⟩ [])) := by
      refine .rule ?_
      rw [hkind, hexpression]
      exact hkeyword
    rw [hread]
    rw [hpairs] at hrule
    exact .passes hrule (by rw [hscan]; rfl) ⟨_, rfl, _, rfl⟩
  · have hread : (Phrase.directiveWord rule directive (Token.ofChars cs)).value = none := by
      cases htokens : Token.ofChars cs with
      | nil => rfl
      | cons front tokens =>
          rw [Phrase.value_directiveWord_cons, if_neg]
          rintro rfl
          exact hnone _ htokens
    rw [hread]
    refine .fails (.rule_fail ?_)
    rw [hkind, hexpression]
    exact hkeyword

/-- Blanks are taken as far as they go. -/
lemma parses_blanks (cs : List Char) :
    Parses input .compound (.many (.rule .blank)) cs (some (Mode.spaced.skip cs, [])) := by
  have hall : ∀ c ∈ cs.takeWhile Char.isWhitespace, c.isWhitespace = true :=
    fun c hc => List.mem_takeWhile_imp hc
  have hmany : Parses input .compound (.many (.rule .blank))
      (cs.takeWhile Char.isWhitespace ++ Mode.spaced.skip cs) (some (Mode.spaced.skip cs, [])) :=
    parses_many_chars takesChar_blank skip_compound hall (unblank_skip cs)
  rwa [Mode.skip, List.takeWhile_append_dropWhile] at hmany

/-- The pair of an alias. -/
def AliasPair (name : String) (pair : Pair) : Prop :=
  ∃ span inner, pair = .mk .nodeAlias span [inner] ∧ IdentPair name inner

lemma simulates_nodeAlias (limit : ℕ) :
    Simulates input limit 1 (.rule .nodeAlias) Phrase.nodeAlias (Alone AliasPair) := by
  intro cs hcs _
  cases hread : (Phrase.nodeAlias (Token.ofChars cs)).value with
  | none =>
      refine .fails (.rule_fail ?_)
      rcases keyword_or_not input isName_as hcs skip_compound with
        ⟨rest, hscan, hkeyword⟩ | ⟨-, hkeyword⟩
      · -- no name follows, whatever blanks there are
        refine .seq_fail_second hkeyword (.seq_fail_second (parses_blanks rest) ?_)
        refine parses_ident_fail fun name tokens hname => ?_
        have hrest : Token.ofChars rest = .ident name :: tokens := by
          rw [← ofChars_skip]
          exact hname
        rw [Phrase.nodeAlias_iff.mpr (by rw [hscan, hrest])] at hread
        cases hread
      · exact .seq_fail_first hkeyword
  | some read =>
      obtain ⟨name, tokens⟩ := read
      have hscan := Phrase.nodeAlias_iff.mp hread
      obtain ⟨rest, rfl, hrest, -, hends⟩ := spelled_of_ofChars hcs hscan
      rw [← ofChars_skip] at hrest
      obtain ⟨rest', hname, rfl, hproper, hends'⟩ := spelled_of_ofChars (unblank_skip rest) hrest
      have hident : Parses input .compound (.rule .ident) (Mode.spaced.skip rest)
          (some (rest', [.mk .ident ⟨name.toList ++ rest', rest'⟩ []])) := by
        rw [hname]
        exact parses_ident (by decide) hproper hends'
      have halias : Parses input .compound Symbol.nodeAlias.expression
          ((Token.ident "as").spelling ++ rest)
          (some (rest', [.mk .ident ⟨name.toList ++ rest', rest'⟩ []])) :=
        .seq (parses_keyword skip_compound hends) (.seq (parses_blanks rest) hident)
      refine .passes (.rule halias) ?_ ⟨_, rfl, _, _, rfl, .mk (Span.text_eq rfl)⟩
      rw [hscan, List.length_cons, List.length_cons]
      omega

/-! ## The rules -/

section

variable {limit taken : ℕ} {symbol : Symbol} {reader : Reader α} {stands : α → List Pair → Prop}

/-- A rule inside which blanks are skipped. -/
lemma Simulates.inside (hinside : symbol.kind.inside .spaced = .spaced)
    (h : Simulates input limit taken symbol.expression reader stands)
    {stands' : α → List Pair → Prop}
    (hstands : ∀ x span inner, stands x inner → stands' x (symbol.pairs .spaced span inner)) :
    Simulates input limit taken (.rule symbol) reader stands' := by
  intro cs hcs hlength
  have hcs' := h cs hcs hlength
  generalize (reader (Token.ofChars cs)).value = read at hcs' ⊢
  cases hcs' with
  | fails hfail => exact .fails (.rule_fail (by rwa [hinside]))
  | passes hpass hless hx => exact .passes (.rule (by rwa [hinside])) hless (hstands _ _ _ hx)

/-- A rule that leaves a pair. -/
lemma Simulates.rule (hkind : symbol.kind = .spaced) {rule : Rule}
    (h : Simulates input limit taken symbol.expression reader stands) {stand : α → Pair → Prop}
    (hstand : ∀ x span inner, stands x inner → stand x (.mk symbol span inner)) :
    Simulates input limit taken (.rule symbol) (Reader.attempt rule reader) (Alone stand) := by
  have hrule : Simulates input limit taken (.rule symbol) reader (Alone stand) := by
    refine h.inside (by rw [hkind]; rfl) fun x span inner hx => ?_
    simp only [Symbol.pairs, hkind]
    exact ⟨_, rfl, hstand x span inner hx⟩
  exact hrule

/-- A rule that leaves no pair of its own. -/
lemma Simulates.silent (hkind : symbol.kind = .silent)
    (h : Simulates input limit taken symbol.expression reader stands) :
    Simulates input limit taken (.rule symbol) reader stands := by
  refine h.inside (by rw [hkind]; rfl) fun x span inner hx => ?_
  simpa only [Symbol.pairs, hkind] using hx

/-- Things with commas between them. -/
lemma Simulates.separated {expression : Expression} {stand : α → Pair → Prop}
    (h : Simulates input limit 1 expression reader (Alone stand)) :
    Simulates input limit 1 (Peg.separated expression) (Reader.separated reader)
      (List.Forall₂ stand) := by
  have hround : ∀ limit', limit' ≤ limit → Simulates input limit' 1 (.seq (.text ",") expression)
      (do Reader.punctuation .comma; reader) (Alone stand) := fun limit' hlimit =>
    ((simulates_mark limit' .comma rfl).after fun _ limit'' hless =>
      h.weaken (by omega) (Nat.zero_le 1)).weaken le_rfl (by omega)
  have hrest : ∀ (x : α) limit', limit' + 1 ≤ limit →
      Simulates input limit' 0 (.many (.seq (.text ",") expression))
        ((x :: ·) <$> Reader.many (do Reader.punctuation .comma; reader))
        fun xs pairs => ∃ rest, xs = x :: rest ∧ List.Forall₂ stand rest pairs :=
    fun x limit' hless => (hround limit' (by omega)).many.map fun xs pairs hxs => ⟨xs, rfl, hxs⟩
  refine (h.bind hrest).imp ?_
  rintro xs pairs ⟨x, before, after, rfl, ⟨pair, rfl, hpair⟩, rest, rfl, hrest⟩
  exact .cons hpair hrest

/-- Things with commas between them, if there are any. -/
lemma Simulates.listed {expression : Expression} {stand : α → Pair → Prop}
    (h : Simulates input limit 1 expression reader (Alone stand)) :
    Simulates input limit 0 (.optional (Peg.separated expression)) (Reader.listed reader)
      (List.Forall₂ stand) :=
  h.separated.orPure .nil

/-- Things with commas between them and perhaps one after the last. -/
lemma Simulates.separatedLoosely {expression : Expression} {stand : α → Pair → Prop}
    (h : Simulates input limit 1 expression reader (Alone stand)) :
    Simulates input limit 1 (Peg.separatedLoosely expression)
      (do
        let xs ← Reader.separated reader
        let _ ← Reader.optional (Reader.punctuation .comma)
        return xs)
      (List.Forall₂ stand) := by
  have hcomma : ∀ limit', Simulates input limit' 0 (.optional (.text ","))
      (Reader.optional (Reader.punctuation .comma)) Nothing := by
    intro limit'
    have hsome : Simulates input limit' 1 (.text ",") (some <$> Reader.punctuation .comma)
        Nothing := (simulates_mark limit' .comma rfl).map fun _ _ => id
    exact hsome.orPure rfl
  exact h.separated.before hcomma

/-- Something between two marks. -/
lemma Simulates.enclosed {expression : Expression} (opening closing : Punctuation)
    {openingWord closingWord : String} (hopening : openingWord.toList = [opening.char])
    (hclosing : closingWord.toList = [closing.char])
    (h : Simulates input limit taken expression reader stands) :
    Simulates input limit 1
      (.seq (.text openingWord) (.seq expression (.text closingWord)))
      (do
        Reader.punctuation opening
        let x ← reader
        Reader.punctuation closing
        return x)
      stands := by
  have hinside : ∀ limit', limit' + 1 ≤ limit → Simulates input limit' taken
      (.seq expression (.text closingWord))
      (do let x ← reader; Reader.punctuation closing; return x) stands := fun limit' hless =>
    (h.weaken (by omega) le_rfl).before fun limit'' =>
      simulates_mark limit'' closing hclosing
  exact ((simulates_mark limit opening hopening).after fun _ => hinside).weaken le_rfl (by omega)

end

lemma simulates_value (limit : ℕ) :
    Simulates input limit 1 (.rule .value) Phrase.value (Alone ValuePair) := by
  have hbound : Simulates input limit 1 (.rule .bound) (Value.bound <$> Phrase.bound)
      (Alone ValuePair) := (simulates_bound limit).map fun _ _ => id
  have hnumber : Simulates input limit 1 (.rule .number) (Value.number <$> Phrase.number)
      (Alone ValuePair) := (simulates_number limit).map fun _ _ => id
  have hstring : Simulates input limit 1 (.rule .string) (Value.string <$> Phrase.string)
      (Alone ValuePair) := (simulates_string limit).map fun _ _ => id
  exact .silent rfl (hbound.orElse (hnumber.orElse hstring))

lemma simulates_param (limit : ℕ) :
    Simulates input limit 1 (.rule .param) Phrase.param (Alone ParamPair) := by
  have hvalue : ∀ (key : String) limit', Simulates input limit' 1 (.rule .value)
      (Parameter.mk key <$> Phrase.value)
      fun param pairs => param.key = key ∧ Alone ValuePair param.value pairs :=
    fun key limit' => (simulates_value limit').map fun _ _ hpair => ⟨rfl, hpair⟩
  have hgiven : ∀ (key : String) limit', limit' + 1 ≤ limit →
      Simulates input limit' (1 + 1) (.seq (.text ":") (.rule .value))
        (do Reader.punctuation .colon; Parameter.mk key <$> Phrase.value)
        fun param pairs => param.key = key ∧ Alone ValuePair param.value pairs :=
    fun key limit' _ => (simulates_mark limit' .colon rfl).after fun _ limit'' _ =>
      hvalue key limit''
  refine .rule rfl (((simulates_ident limit).bind hgiven).weaken le_rfl (by omega)) ?_
  rintro param span inner
    ⟨key, before, after, rfl, ⟨keyPair, rfl, hkey⟩, rfl, value, rfl, hvalue⟩
  exact .mk hkey hvalue

lemma simulates_params (limit : ℕ) :
    Simulates input limit 1 (.rule .params) Phrase.params (Alone ParamsPair) :=
  .rule rfl ((simulates_param limit).listed.enclosed .leftParen .rightParen rfl rfl)
    fun _ _ _ => .mk

lemma simulates_optional_nodeAlias (limit : ℕ) :
    Simulates input limit 0 (.optional (.rule .nodeAlias)) (Reader.optional Phrase.nodeAlias)
      AliasPairs := by
  have hsome : Simulates input limit 1 (.rule .nodeAlias) (some <$> Phrase.nodeAlias)
      AliasPairs := by
    refine (simulates_nodeAlias limit).map ?_
    rintro name pairs ⟨pair, rfl, span, inner, rfl, hname⟩
    exact .some hname
  exact hsome.orPure .none

lemma simulates_directive (limit : ℕ) :
    Simulates input limit 1 (.rule .directive) Phrase.directive (Alone DirectivePair) :=
  .silent rfl ((simulates_directiveWord limit .labels .labels).orElse
    ((simulates_directiveWord limit .relationships .relationships).orElse
      (simulates_directiveWord limit .graph .graph)))

lemma simulates_field (limit : ℕ) :
    Simulates input limit 1 (.rule .field) Phrase.field (Alone ItemPair) := by
  have hname : Simulates input limit 1 (.rule .field) (Reader.attempt .field Phrase.ident)
      (Alone fun name => ItemPair (.field name)) :=
    simulates_token Token.ident (fun _ _ _ => Phrase.ident_iff)
      (fun name rest hproper hends => ⟨_, .field (.mk (Span.text_eq rfl)) (Span.text_eq rfl),
        .rule (parses_ident (by decide) hproper hends)⟩)
      fun cs _ hnone => .rule_fail (parses_ident_fail hnone)
  have hfield : Simulates input limit 1 (.rule .field)
      (Phrase.Item.field <$> Reader.attempt .field Phrase.ident) (Alone ItemPair) :=
    hname.map fun _ _ => id
  intro cs hcs hlength
  have hcs' := hfield cs hcs hlength
  rwa [Reader.value_map, Reader.value_attempt, ← Reader.value_map] at hcs'

/-! ### Nodes inside one another -/

section

variable {limit : ℕ} {inner : Reader Phrase.Node}

lemma simulates_item (h : Simulates input limit 1 (.rule .node) inner (Alone NodePair)) :
    Simulates input limit 1 (.rule .item) (Phrase.item inner) (Alone ItemPair) := by
  have hnode : Simulates input limit 1 (.rule .node) (Phrase.Item.node <$> inner)
      (Alone ItemPair) := by
    refine h.map ?_
    rintro node pairs ⟨pair, rfl, hpair⟩
    exact ⟨pair, rfl, .node hpair⟩
  exact .silent rfl (hnode.orElse (simulates_field limit))

/-- The pair of a block. -/
def PropertiesPair (items : List Phrase.Item) (pair : Pair) : Prop :=
  ∃ span inner, pair = .mk .properties span inner ∧ List.Forall₂ ItemPair items inner

lemma simulates_properties (h : Simulates input limit 1 (.rule .node) inner (Alone NodePair)) :
    Simulates input limit 1 (.rule .properties) (Phrase.properties inner)
      (Alone PropertiesPair) := by
  have hitems : Simulates input limit 0 (.optional (.rule .items))
      (Reader.listedLoosely (Phrase.item inner)) (List.Forall₂ ItemPair) :=
    Simulates.orPure (.silent rfl (simulates_item h).separatedLoosely) .nil
  have hblock : ∀ limit', limit' + 1 ≤ limit → Simulates input limit' 1
      (.seq (.text "\x7b") (.seq (.optional (.rule .items)) (.text "\x7d")))
      (do
        Reader.punctuation .leftBrace
        let items ← Reader.listedLoosely (Phrase.item inner)
        Reader.punctuation .rightBrace
        return items)
      (List.Forall₂ ItemPair) := fun limit' hless =>
    (hitems.weaken (by omega) le_rfl).enclosed .leftBrace .rightBrace rfl rfl
  have hopening : ∀ cs, ¬ NameEnds cs → Parses input .spaced
      (.seq (.text "\x7b") (.seq (.optional (.rule .items)) (.text "\x7d"))) cs none := by
    intro cs hgoes
    refine .seq_fail_first (.text_fail ?_)
    rintro ⟨rest, rfl⟩
    exact hgoes (nameEnds_cons.mpr rfl)
  exact .rule rfl ((Simulates.afterWord isName_properties hblock hopening).weaken le_rfl (by omega))
    fun _ span pairs hpairs => ⟨span, pairs, rfl, hpairs⟩

lemma simulates_entry (h : Simulates input limit 1 (.rule .node) inner (Alone NodePair)) :
    Simulates input limit 1 (.rule .entry) (Phrase.entry inner) (Alone EntryPair) := by
  have hnode : Simulates input limit 1 (.rule .node)
      ((Phrase.Entry.item ∘ Phrase.Item.node) <$> inner) (Alone EntryPair) := by
    refine h.map ?_
    rintro node pairs ⟨pair, rfl, hpair⟩
    exact ⟨pair, rfl, .item (.node hpair)⟩
  have hdirective : Simulates input limit 1 (.rule .directive)
      (Phrase.Entry.directive <$> Phrase.directive) (Alone EntryPair) := by
    refine (simulates_directive limit).map ?_
    rintro directive pairs ⟨pair, rfl, span, rfl⟩
    exact ⟨_, rfl, .directive⟩
  have hproperties : Simulates input limit 1 (.rule .properties)
      (Phrase.Entry.properties <$> Phrase.properties inner) (Alone EntryPair) := by
    refine (simulates_properties h).map ?_
    rintro items pairs ⟨pair, rfl, span, inner, rfl, hitems⟩
    exact ⟨_, rfl, .properties hitems⟩
  have hfield : Simulates input limit 1 (.rule .field) (Phrase.Entry.item <$> Phrase.field)
      (Alone EntryPair) := by
    refine (simulates_field limit).map ?_
    rintro item pairs ⟨pair, rfl, hpair⟩
    exact ⟨pair, rfl, .item hpair⟩
  exact .silent rfl (hnode.orElse (hdirective.orElse (hproperties.orElse hfield)))

/-- The pair of a body. -/
def BodyPair (entries : List Phrase.Entry) (pair : Pair) : Prop :=
  ∃ span inner, pair = .mk .body span inner ∧ List.Forall₂ EntryPair entries inner

lemma simulates_body (h : Simulates input limit 1 (.rule .node) inner (Alone NodePair)) :
    Simulates input limit 1 (.rule .body) (Phrase.body inner) (Alone BodyPair) :=
  .rule rfl (((simulates_entry h).separatedLoosely.orPure .nil).enclosed .leftBrace .rightBrace
    rfl rfl) fun _ span pairs hpairs => ⟨span, pairs, rfl, hpairs⟩

/-- What is inside a node has fewer tokens. -/
lemma simulates_nodeAround (h : ∀ limit', limit' < limit →
      Simulates input limit' 1 (.rule .node) inner (Alone NodePair)) :
    Simulates input limit 1 (.rule .node) (Phrase.nodeAround inner) (Alone NodePair) := by
  have hbody : ∀ (typeName : String) (params : List Parameter) (given : Option String) limit',
      limit' < limit → Simulates input limit' 1 (.rule .body)
        (Phrase.Node.mk typeName params given <$> Phrase.body inner)
        fun node pairs => ∃ entries, node = .mk typeName params given entries
          ∧ Alone BodyPair entries pairs :=
    fun typeName params given limit' hless =>
      (simulates_body (h limit' hless)).map fun entries _ hpair => ⟨entries, rfl, hpair⟩
  have hgiven : ∀ (typeName : String) (params : List Parameter) limit', limit' < limit →
      Simulates input limit' (0 + 1) (.seq (.optional (.rule .nodeAlias)) (.rule .body))
        (do
          let given ← Reader.optional Phrase.nodeAlias
          Phrase.Node.mk typeName params given <$> Phrase.body inner) _ :=
    fun typeName params limit' hless => (simulates_optional_nodeAlias limit').bind
      fun given limit'' hless' => hbody typeName params given limit'' (by omega)
  have hparams : ∀ (typeName : String) limit', limit' + 1 ≤ limit →
      Simulates input limit' (1 + (0 + 1)) (.seq (.rule .params)
          (.seq (.optional (.rule .nodeAlias)) (.rule .body)))
        (do
          let params ← Phrase.params
          let given ← Reader.optional Phrase.nodeAlias
          Phrase.Node.mk typeName params given <$> Phrase.body inner) _ :=
    fun typeName limit' hless => (simulates_params limit').bind
      fun params limit'' hless' => hgiven typeName params limit'' (by omega)
  refine .rule rfl (((simulates_ident limit).bind hparams).weaken le_rfl (by omega)) ?_
  rintro node span pairs ⟨typeName, _, _, rfl, ⟨name, rfl, hname⟩, params, _, _, rfl,
    ⟨paramsPair, rfl, hparams⟩, given, aliasPairs, _, rfl, halias, entries, rfl, _, rfl, bodySpan,
    inside, rfl, hentries⟩
  exact .mk hname hparams halias hentries

end

/-- **Nodes agree.**  A node inside another has fewer tokens, so that reading to a depth of more
    than there are tokens is reading to any depth. -/
theorem simulates_node (depth limit : ℕ) (h : limit < depth) :
    Simulates input limit 1 (.rule .node) (Phrase.node depth) (Alone NodePair) := by
  induction depth generalizing limit with
  | zero => omega
  | succ depth ih => exact simulates_nodeAround fun limit' hless => ih limit' (by omega)

/-! ## The whole text -/

/-- The pair of the end of the text. -/
def EndPair (_ : Unit) (pair : Pair) : Prop :=
  ∃ span, pair = .mk .endOfInput span []

lemma simulates_endOfInput (limit : ℕ) :
    Simulates input limit 0 (.rule .endOfInput) Phrase.endOfInput (Alone EndPair) := by
  intro cs hcs _
  cases cs with
  | nil =>
      have hend : Parses input .spaced (.rule .endOfInput) []
          (some ([], [.mk .endOfInput ⟨[], []⟩ []])) := .rule .finish
      have hstands : Alone EndPair () [.mk .endOfInput ⟨[], []⟩ []] := ⟨_, rfl, _, rfl⟩
      have hread : (Phrase.endOfInput (Token.ofChars [])).value = some ((), Token.ofChars []) := by
        rw [Token.ofChars_nil]
        rfl
      rw [hread]
      exact .passes hend le_rfl hstands
  | cons c cs =>
      rw [Token.ofChars_cons (hcs c rfl)]
      exact .fails (.rule_fail .finish_fail)

/-- A node and the end of the text behind it. -/
lemma simulates_request (input : List Char) (limit : ℕ) :
    Simulates input limit 1 (.seq (.rule .node) (.rule .endOfInput))
      (do
        let root ← Phrase.node (limit + 1)
        Phrase.endOfInput
        return root)
      fun node pairs => ∃ root last, pairs = [root, last] ∧ NodePair node root
        ∧ EndPair () last := by
  have hlast : ∀ (root : Phrase.Node) limit', limit' + 1 ≤ limit → Simulates input limit' 0
      (.rule .endOfInput) ((fun _ => root) <$> Phrase.endOfInput)
      fun node pairs => node = root ∧ Alone EndPair () pairs :=
    fun root limit' _ => (simulates_endOfInput limit').map fun _ _ hlast => ⟨rfl, hlast⟩
  refine ((simulates_node (limit + 1) limit (Nat.lt_succ_self _)).bind hlast).imp ?_
  rintro node pairs ⟨_, _, _, rfl, ⟨root, rfl, hroot⟩, rfl, last, rfl, hlast⟩
  exact ⟨root, last, rfl, hroot, hlast⟩

/-- The text that is matched begins where it begins, and blanks may stand there. -/
lemma parses_query {outcome : Outcome}
    (h : Parses input .spaced (.seq (.rule .node) (.rule .endOfInput)) (Mode.spaced.skip input)
      outcome) : Parses input .spaced (.rule .query) input outcome := by
  cases outcome with
  | none => exact .rule_fail (.seq_fail_second (.start rfl) h)
  | some taken => exact .rule (.seq (.start rfl) h)

/-- That the outcome of matching a text settles its request.  If matching fails, the text is
    malformed.  If it passes, it leaves the pair of a node and that of the end, all pairs have the
    shape that building relies on, and building does not panic: it comes to the request that is
    read from the text, or to the fault that is found in it. -/
def Settles (text : String) : Outcome → Prop
  | none => ∃ diagnosis, (Request.ofText text).2 = .error (.malformed diagnosis)
  | some (_, pairs) =>
    pairs.map Pair.symbol = [.node, .endOfInput] ∧ (∀ pair ∈ pairs, pair.Shaped)
      ∧ build pairs ≠ .error .panicked
      ∧ build pairs = (Request.ofText text).2.mapError .refused

/-- **Matching and reading agree, and building a request from pairs does not panic.**  Matching a
    text comes to one outcome, and that settles the request. -/
theorem request_of_pairs (text : String) :
    ∃ outcome, Settles text outcome
      ∧ ∀ other, Parses text.toList .spaced (.rule .query) text.toList other ↔ other = outcome := by
  have hunique : ∀ {outcome}, Parses text.toList .spaced (.rule .query) text.toList outcome →
      ∀ other, Parses text.toList .spaced (.rule .query) text.toList other ↔ other = outcome :=
    fun h other => ⟨fun h' => h'.unique h, fun heq => heq ▸ h⟩
  have hmatch := simulates_request text.toList (Token.ofText text).length
    (Mode.spaced.skip text.toList) (unblank_skip _) (by rw [ofChars_skip]; rfl)
  rw [ofChars_skip] at hmatch
  change Agrees _ _ _ _ _ (Phrase.request (Token.ofText text)).value at hmatch
  cases hread : (Phrase.request (Token.ofText text)).value with
  | none =>
      rw [hread] at hmatch
      cases hmatch with
      | fails hfail =>
          refine ⟨none, ?_, hunique (parses_query hfail)⟩
          simp only [Settles, Request.ofText, hread]
          exact ⟨_, rfl⟩
  | some read =>
      rw [hread] at hmatch
      cases hmatch with
      | @passes node rest pairs hpass _ hpairs =>
          obtain ⟨root, last, rfl, hroot, span, rfl⟩ := hpairs
          obtain ⟨hsymbol, hshaped⟩ := NodePair.shaped node root hroot
          have hbuild : build [root, .mk .endOfInput span []]
              = (Request.ofText text).2.mapError .refused := by
            simp only [build_eq hroot, Request.ofText, hread]
            rcases (Request.ofPhrase none node).register [] with ⟨known, _ | fault⟩ <;> rfl
          have hsymbols : [root, .mk .endOfInput span []].map Pair.symbol
              = [.node, .endOfInput] := by
            rw [List.map_cons, hsymbol]
            rfl
          refine ⟨some (rest, [root, .mk .endOfInput span []]), ⟨hsymbols, ?_, ?_, hbuild⟩,
            hunique (parses_query hpass)⟩
          · simp only [List.forall_mem_cons]
            exact ⟨hshaped, .mk rfl (List.forall_mem_nil _), List.forall_mem_nil _⟩
          · rw [hbuild]
            cases (Request.ofText text).2 <;> simp [Except.mapError]

end Peg

end GraphRequest
