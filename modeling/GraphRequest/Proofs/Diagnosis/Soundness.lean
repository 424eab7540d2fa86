import GraphRequest.Proofs.Diagnosis.Exploring
import GraphRequest.Proofs.Pairs.Agreement
import GraphRequest.Proofs.Phrase.Acceptance

/-!
# A diagnosis is no false lead

A text that is no request is answered with a place and the rules that were expected there.  Here
this is shown to be right: whatever stands before the place can be continued with a match of any of
these rules, after blanks, into a text that the grammar accepts.

On tokens this is `Phrase.request_expectable`.  What is left is to go from tokens to the characters
at the place and back.

* `Token.exists_cut` — a text is cut in front of a token.  What comes before the cut can be given
  another continuation without a change to its own tokens.
* `Token.exists_text` — tokens that are whole are those of a text.
* `Peg.accepts_iff` — the grammar accepts a text exactly if it is read.
* `Rule.matches_of_sample` — the sample of a rule matches it.
* **`Request.diagnosis_sound`** — every rule expected can go on from the place.
-/

namespace GraphRequest

open GraphRequest.Derivation Peg

/-! ## Cutting a text at a token -/

namespace Lexeme

/-- Where the first of several lexemes stands, or else the end. -/
def startOf (finish : Nat) : List Lexeme → Nat
  | [] => finish
  | lexeme :: _ => lexeme.offset

/-- A token that is found at the front of a text stands there. -/
lemma scan_spelling {token : Token} {rest : List Char} (hunblank : Unblank (token.spelling ++ rest))
    {tokens : List Token} (h : Token.ofChars (token.spelling ++ rest) = token :: tokens)
    (offset : Nat) : scan offset (token.spelling ++ rest)
      = ⟨token, offset⟩ :: scan (offset + token.width) rest := by
  cases hcs : token.spelling ++ rest with
  | nil => simp [hcs] at h
  | cons c cs =>
      have hc : c.isWhitespace = false := hunblank c (by rw [hcs]; rfl)
      rw [hcs, Token.ofChars_cons hc, List.cons.injEq] at h
      obtain ⟨rfl, -⟩ := h
      have hrest : (Token.atFront c cs).2 = rest :=
        List.append_cancel_left ((Token.spelling_atFront c cs).trans hcs.symm)
      rw [scan, if_neg (by simp [hc]), hrest]

lemma scan_blanks {blanks : List Char} (hblanks : ∀ c ∈ blanks, c.isWhitespace = true)
    (offset : Nat) (cs : List Char) :
    scan offset (blanks ++ cs) = scan (offset + blanks.length) cs := by
  induction blanks generalizing offset with
  | nil => rfl
  | cons c blanks ih =>
      obtain ⟨hc, hmore⟩ := List.forall_mem_cons.mp hblanks
      rw [List.cons_append, scan, if_pos hc, ih hmore, List.length_cons, Nat.add_assoc,
        Nat.add_comm 1]

end Lexeme

namespace Token

lemma ofChars_blanks {blanks : List Char} (hblanks : ∀ c ∈ blanks, c.isWhitespace = true)
    (cs : List Char) : ofChars (blanks ++ cs) = ofChars cs :=
  Stretch.ofChars_of_blanks (Stretch.star_oneOf_iff.mpr ⟨blanks, rfl, hblanks⟩)

/-- A token that is whole is found where it is spelled out, if it ends there. -/
lemma ofChars_spelling {token : Token} (hwhole : token.Whole) {rest : List Char}
    (hends : token.Ends rest) : ofChars (token.spelling ++ rest) = token :: ofChars rest := by
  cases token with
  | ident name => exact ofChars_ident hwhole hends
  | number digits => exact ofChars_number hwhole hends
  | bound name => simpa [spelling] using ofChars_bound hwhole rest
  | string text => simpa [spelling] using ofChars_string hwhole rest
  | punctuation mark => exact ofChars_punctuation mark rest
  | unclosed name => exact hwhole.elim
  | stray c => exact hwhole.elim

/-- A token ends where nothing goes on with a name. -/
lemma ends_of_nameEnds {cs : List Char} (h : NameEnds cs) (token : Token) : token.Ends cs := by
  cases token with
  | ident name => exact h
  | number digits =>
      intro c hc
      have hchar := h c hc
      rw [← Bool.not_eq_true, isNameChar_iff, not_or] at hchar
      simpa using hchar.2
  | _ => trivial

/-- A token that ends goes on ending if what comes after it is changed farther on. -/
lemma Ends.change {token : Token} {front back more : List Char} (h : token.Ends (front ++ back))
    (hmore : NameEnds more) : token.Ends (front ++ more) := by
  cases front with
  | nil => exact ends_of_nameEnds hmore token
  | cons c front => cases token <;> exact h

lemma exists_unblank (cs : List Char) : ∃ blanks back,
    (∀ c ∈ blanks, c.isWhitespace = true) ∧ Unblank back ∧ cs = blanks ++ back :=
  ⟨cs.takeWhile Char.isWhitespace, Mode.spaced.skip cs, fun _ hc => List.mem_takeWhile_imp hc,
    unblank_skip cs, List.takeWhile_append_dropWhile.symm⟩

/-- That a text is cut in front of a token.

* `start` — where the second part starts;
* `goesOn` — what else can be put in place of the second part. -/
structure Cut (offset : Nat) (cs front back : List Char) (before ahead : List Token) : Prop where
  append : cs = front ++ back
  unblank : Unblank back
  tokens : ofChars back = ahead
  start : Lexeme.startOf (offset + cs.length) ((Lexeme.scan offset cs).drop before.length)
    = offset + front.length
  goesOn : ∀ more, NameEnds more → ofChars (front ++ more) = before ++ ofChars more

/-- **A text can be cut in front of any of its tokens**, provided that those before it are whole. -/
lemma exists_cut {cs : List Char} {before ahead : List Token} (h : ofChars cs = before ++ ahead)
    (hwhole : ∀ token ∈ before, token.Whole) (offset : Nat) :
    ∃ front back, Cut offset cs front back before ahead := by
  induction before generalizing cs offset with
  | nil =>
      obtain ⟨blanks, back, hblanks, hback, rfl⟩ := exists_unblank cs
      rw [ofChars_blanks hblanks] at h
      refine ⟨blanks, back, rfl, hback, h, ?_, fun more _ => ofChars_blanks hblanks more⟩
      rw [Lexeme.scan_blanks hblanks]
      cases back with
      | nil => simp [Lexeme.scan, Lexeme.startOf]
      | cons c back => rw [Lexeme.scan, if_neg (by simp [hback c rfl])]; rfl
  | cons token before ih =>
      obtain ⟨blanks, back, hblanks, hback, rfl⟩ := exists_unblank cs
      rw [ofChars_blanks hblanks] at h
      obtain ⟨htoken, hmore⟩ := List.forall_mem_cons.mp hwhole
      obtain ⟨rest, rfl, hrest, -, hends⟩ := spelled_of_ofChars hback h
      have hscan := Lexeme.scan_spelling hback h (offset + blanks.length)
      obtain ⟨front, back, hcut⟩ := ih hrest hmore (offset + blanks.length + token.width)
      obtain rfl := hcut.append
      refine ⟨blanks ++ (token.spelling ++ front), back, by simp, hcut.unblank, hcut.tokens, ?_,
        fun more hgoes => ?_⟩
      · have hstart := hcut.start
        rw [Lexeme.scan_blanks hblanks, hscan, List.length_cons, List.drop_succ_cons]
        simp only [width, List.length_append, ← Nat.add_assoc] at hstart ⊢
        exact hstart
      · -- the token ends where it did: what is right after it is of the first part or begins `more`
        rw [List.append_assoc, List.append_assoc, ofChars_blanks hblanks,
          ofChars_spelling htoken (hends.change hgoes), hcut.goesOn more hgoes]
        rfl

/-- **Tokens that are whole are those of a text.** -/
lemma exists_text {tokens : List Token} (hwhole : ∀ token ∈ tokens, token.Whole) :
    ∃ cs, Unblank cs ∧ ofChars cs = tokens := by
  induction tokens with
  | nil => exact ⟨[], fun _ hc => (nomatch hc), ofChars_nil⟩
  | cons token tokens ih =>
      -- a blank after each token keeps words apart
      obtain ⟨htoken, hmore⟩ := List.forall_mem_cons.mp hwhole
      obtain ⟨cs, -, rfl⟩ := ih hmore
      have hends : token.Ends (' ' :: cs) :=
        ends_of_nameEnds (nameEnds_cons.mpr (isNameChar_of_isWhitespace rfl)) token
      refine ⟨Mode.spaced.skip (token.spelling ++ ' ' :: cs), unblank_skip _, ?_⟩
      rw [ofChars_skip, ofChars_spelling htoken hends, ofChars_blank rfl]

end Token

/-! ## Acceptance -/

namespace Peg

/-- That the grammar accepts a text. -/
def Accepts (cs : List Char) : Prop :=
  ∃ rest pairs, Parses cs .spaced (.rule .query) cs (some (rest, pairs))

/-- **The grammar accepts a text exactly if it is read.** -/
lemma accepts_iff (cs : List Char) :
    Accepts cs ↔ ∃ read, (Phrase.request (Token.ofChars cs)).value = some read := by
  have hmatch := simulates_request cs (Token.ofChars cs).length (Mode.spaced.skip cs)
    (unblank_skip cs) (by rw [ofChars_skip])
  rw [ofChars_skip] at hmatch
  change Agrees _ _ _ _ _ (Phrase.request (Token.ofChars cs)).value at hmatch
  generalize (Phrase.request (Token.ofChars cs)).value = read at hmatch
  cases hmatch with
  | fails hfail =>
      refine ⟨fun ⟨rest, pairs, h⟩ => ?_, by simp⟩
      cases h.unique (parses_query hfail)
  | passes hpass => exact ⟨fun _ => ⟨_, rfl⟩, fun _ => ⟨_, _, parses_query hpass⟩⟩

/-- What is derived is accepted. -/
lemma accepts_of_derives {node : Derivation.Node} {text : String} (h : node.Derives text) :
    Accepts text.toList :=
  (accepts_iff _).mpr ⟨_, Phrase.value_request_of_derives h⟩

/-- A text is accepted if its tokens are a sentence. -/
lemma accepts_of_mem_sentences {cs : List Char} (h : Token.ofChars cs ∈ sentences) :
    Accepts cs := by
  obtain ⟨⟨node, hnode⟩, -⟩ := h
  have hderives : node.Derives (String.ofList cs) :=
    derives_iff.mpr (by rw [Token.ofText_eq_ofChars, String.toList_ofList, hnode])
  simpa using accepts_of_derives hderives

/-- The tokens of an accepted text are a sentence. -/
lemma mem_sentences_of_accepts {cs : List Char} (h : Accepts cs) :
    Token.ofChars cs ∈ sentences := by
  obtain ⟨⟨root, rest⟩, hread⟩ := (accepts_iff cs).mp h
  obtain ⟨used, hused, htokens⟩ := (Phrase.explores_node _).takes
    (fun _ hmem => Token.proper_of_mem_ofChars hmem) (Phrase.value_request_iff.mp hread).1
  rwa [htokens, List.append_nil]

end Peg

/-! ## Matching a rule -/

namespace Rule

/-- The rule of the grammar. -/
def symbol : Rule → Symbol
  | .endOfInput => .endOfInput
  | .ident => .ident
  | .bound => .bound
  | .number => .number
  | .string => .string
  | .param => .param
  | .params => .params
  | .nodeAlias => .nodeAlias
  | .labels => .labels
  | .relationships => .relationships
  | .graph => .graph
  | .field => .field
  | .properties => .properties
  | .body => .body
  | .node => .node

/-- That a text begins with a match of a rule. -/
def Matches (rule : Rule) (cs : List Char) : Prop :=
  ∃ rest pairs, Parses cs .spaced (.rule rule.symbol) cs (some (rest, pairs))

/-- A rule matches where a reader that agrees with it passes. -/
lemma matches_of_simulates {rule : Rule} {cs : List Char} (hcs : Unblank cs) {α : Type}
    {reader : Reader α} {stands : α → List Pair → Prop} {limit taken : Nat}
    (h : Simulates cs limit taken (.rule rule.symbol) reader stands)
    (hlimit : (Token.ofChars cs).length ≤ limit) {read : α × List Token}
    (hread : (reader (Token.ofChars cs)).value = some read) : rule.Matches cs := by
  have hagrees := h cs hcs hlimit
  rw [hread] at hagrees
  cases hagrees with
  | passes hpass => exact ⟨_, _, hpass⟩

/-- **The sample of a rule matches it**, whatever comes after. -/
lemma matches_of_sample {rule : Rule} (hrule : rule ≠ .endOfInput) {cs : List Char}
    (hcs : Unblank cs) {after : List Token} (h : Token.ofChars cs = rule.sample ++ after) :
    rule.Matches cs := by
  have hnodes : Simulates cs (Token.ofChars cs).length 1 (.rule .node)
      (Phrase.node ((Token.ofChars cs).length + 1)) (Alone NodePair) :=
    simulates_node _ _ (Nat.lt_succ_self _)
  cases rule with
  | endOfInput => exact absurd rfl hrule
  | ident => exact matches_of_simulates hcs (simulates_ident _) le_rfl (Phrase.ident_iff.mpr h)
  | bound => exact matches_of_simulates hcs (simulates_bound _) le_rfl (by rw [h]; rfl)
  | number => exact matches_of_simulates hcs (simulates_number _) le_rfl (by rw [h]; rfl)
  | string => exact matches_of_simulates hcs (simulates_string _) le_rfl (by rw [h]; rfl)
  | param => exact matches_of_simulates hcs (simulates_param _) le_rfl (Phrase.param_iff.mpr h)
  | params =>
      exact matches_of_simulates hcs (simulates_params _) le_rfl
        (by rw [h]; exact Phrase.params_complete [] after)
  | nodeAlias =>
      exact matches_of_simulates hcs (simulates_nodeAlias _) le_rfl (Phrase.nodeAlias_iff.mpr h)
  | labels =>
      exact matches_of_simulates hcs (simulates_directiveWord _ .labels .labels) le_rfl
        (by rw [h]; rfl)
  | relationships =>
      exact matches_of_simulates hcs (simulates_directiveWord _ .relationships .relationships)
        le_rfl (by rw [h]; rfl)
  | graph =>
      exact matches_of_simulates hcs (simulates_directiveWord _ .graph .graph) le_rfl
        (by rw [h]; rfl)
  | field =>
      exact matches_of_simulates hcs (simulates_field _) le_rfl
        (Phrase.field_iff.mpr ⟨"x", rfl, h⟩)
  | properties =>
      exact matches_of_simulates hcs (simulates_properties hnodes) le_rfl
        (by rw [h]; exact blockRead .empty _ after (Nat.zero_le _))
  | body =>
      exact matches_of_simulates hcs (simulates_body hnodes) le_rfl
        (by rw [h]; exact bodyRead .empty _ after (Nat.zero_le _))
  | node =>
      have hlength := congrArg List.length h
      rw [List.length_append] at hlength
      have hread := Node.read (.mk "x" [] none .empty) ((Token.ofChars cs).length + 1) after
        (by rw [hlength]; exact Nat.le_succ_of_le (Nat.le_add_right _ _))
      rw [show (Node.mk "x" [] none .empty).tokens ++ after = Token.ofChars cs from h.symm] at hread
      exact matches_of_simulates hcs hnodes le_rfl hread

/-- **That a rule can go on from a text**: into an accepted one after blanks, with a match of the
    rule; the end of the text, if the text itself is accepted. -/
def Continues (rule : Rule) (front : List Char) : Prop :=
  if rule = .endOfInput then Accepts front
  else ∃ blanks more, (∀ c ∈ blanks, c.isWhitespace = true) ∧ rule.Matches more
    ∧ Accepts (front ++ blanks ++ more)

lemma Continues.exists_accepts {rule : Rule} {front : List Char} (h : rule.Continues front) :
    ∃ more, Accepts (front ++ more) := by
  rw [Continues] at h
  split at h
  · exact ⟨[], by rwa [List.append_nil]⟩
  · obtain ⟨blanks, more, -, -, haccepts⟩ := h
    exact ⟨blanks ++ more, by rwa [← List.append_assoc]⟩

end Rule

/-! ## The place of a diagnosis -/

lemma Token.Cut.positionOf_eq {text : String} {front back : List Char} {before ahead : List Token}
    (h : Token.Cut 0 text.toList front back before ahead)
    (htokens : Token.ofText text = before ++ ahead) (inside : Bool) :
    Diagnosis.positionOf text ⟨ahead.length, inside⟩
      = if inside then front.length + 1 else front.length := by
  have hlength : (Lexeme.ofText text).length - ahead.length = before.length := by
    rw [← List.length_map Lexeme.token, show (Lexeme.ofText text).map Lexeme.token = _ from htokens]
    simp
  have hstart := h.start
  rw [Nat.zero_add, Nat.zero_add] at hstart
  rw [← hstart, ← hlength]
  rfl

section

variable {offset : Nat} {cs front back : List Char} {before ahead : List Token}

/-- What a text can be cut before can be put behind its first part again, and more. -/
lemma Token.Cut.accepts (h : Token.Cut offset cs front back before ahead) {more : List Char}
    (hends : NameEnds more) (hsentence : before ++ Token.ofChars more ∈ sentences) :
    Accepts (front ++ more) :=
  accepts_of_mem_sentences (by rwa [h.goesOn more hends])

/-- A rule of which a sample can come next can go on, after a blank. -/
lemma Token.Cut.continues_sample (h : Token.Cut offset cs front back before ahead) {rule : Rule}
    (hrule : rule ≠ .endOfInput) (hbegins : Begins (before ++ rule.sample)) :
    rule.Continues front := by
  obtain ⟨after, hsentence⟩ := hbegins
  rw [List.append_assoc] at hsentence
  obtain ⟨more, hunblank, hmore⟩ := Token.exists_text (List.forall_mem_append.mp hsentence.2).2
  rw [Rule.Continues, if_neg hrule]
  refine ⟨[' '], more, by simp, Rule.matches_of_sample hrule hunblank hmore, ?_⟩
  rw [List.append_assoc]
  refine h.accepts (nameEnds_cons.mpr rfl) ?_
  rwa [List.singleton_append, Token.ofChars_blank rfl, hmore]

/-- A name can go on after an opening bracket, where a bound name can come next. -/
lemma Token.Cut.continues_inside (h : Token.Cut offset cs front back before ahead)
    (hbegins : Begins (before ++ [.bound "x"])) : Rule.ident.Continues (front ++ ['<']) := by
  obtain ⟨after, hsentence⟩ := hbegins
  rw [List.append_assoc] at hsentence
  have hafter := (List.forall_mem_append.mp hsentence.2).2
  obtain ⟨more, -, hmore⟩ := Token.exists_text (List.forall_mem_cons.mp hafter).2
  have hscan : Token.ofChars ('<' :: ("x".toList ++ '>' :: more)) = .bound "x" :: after := by
    rw [Token.ofChars_bound Phrase.isName_x, hmore]
    rfl
  refine ⟨[], "x".toList ++ '>' :: more, by simp, ?_, ?_⟩
  · exact ⟨_, _, parses_ident (by decide) Phrase.isName_x (nameEnds_cons.mpr rfl)⟩
  · rw [List.append_nil, List.append_assoc]
    refine h.accepts (nameEnds_cons.mpr rfl) ?_
    rwa [List.singleton_append, hscan]

end

/-- **What can be expected at a place can go on from there.** -/
theorem Expectable.continues {text : String} {rule : Rule} {place : Place}
    (h : Expectable (Token.ofText text) rule place) :
    ∃ front back, text.toList = front ++ back ∧ Diagnosis.positionOf text place = front.length
      ∧ rule.Continues front := by
  cases h with
  | @front before ahead rule htokens hrule hbegins =>
      have hwhole := hbegins.whole
      obtain ⟨front, back, hcut⟩ :=
        Token.exists_cut htokens (List.forall_mem_append.mp hwhole).1 0
      exact ⟨front, back, hcut.append, hcut.positionOf_eq htokens false,
        hcut.continues_sample hrule hbegins⟩
  | @inside before ahead token htokens hfront hbegins =>
      obtain ⟨spelling, hspelling⟩ := hfront
      have hwhole := hbegins.whole
      obtain ⟨front, back, hcut⟩ :=
        Token.exists_cut htokens (List.forall_mem_append.mp hwhole).1 0
      obtain ⟨rest, rfl, -⟩ := spelled_of_ofChars hcut.unblank hcut.tokens
      refine ⟨front ++ ['<'], spelling ++ rest, ?_, ?_, hcut.continues_inside hbegins⟩
      · rw [hcut.append, hspelling, List.append_assoc]
        rfl
      · rw [hcut.positionOf_eq htokens true, List.length_append]
        rfl
  | @finish before ahead htokens hsentence =>
      obtain ⟨front, back, hcut⟩ := Token.exists_cut htokens hsentence.2 0
      refine ⟨front, back, hcut.append, hcut.positionOf_eq htokens false, ?_⟩
      have haccepts : Accepts (front ++ []) := by
        refine hcut.accepts nofun ?_
        rwa [Token.ofChars_nil, List.append_nil]
      rwa [List.append_nil] at haccepts

namespace Request

/-- **A diagnosis is no false lead.**  A text that the grammar does not accept is answered with a
    place in it, which is at a boundary of characters, and with rules, at least one.  Each of these
    can go on from what stands before the place into a text that the grammar accepts. -/
theorem diagnosis_sound {text : String} (hrejected : ¬ Accepts text.toList) :
    ∃ (diagnosis : Diagnosis) (front back : String),
      (ofText text).2 = .error (.malformed diagnosis)
        ∧ text = front ++ back
        ∧ diagnosis.position = front.length
        ∧ diagnosis.offset = front.utf8ByteSize
        ∧ (String.Pos.Raw.mk diagnosis.offset).IsValid text
        ∧ diagnosis.expected ≠ []
        ∧ (∀ rule ∈ diagnosis.expected, rule.Continues front.toList)
        ∧ ∃ more, Accepts (front.toList ++ more) := by
  have hread : (Phrase.request (Token.ofText text)).value = none :=
    Option.eq_none_iff_forall_ne_some.mpr fun read hread =>
      hrejected ((accepts_iff text.toList).mpr ⟨read, hread⟩)
  let tried := (Phrase.request (Token.ofText text)).tried
  let frontier := Frontier.ofAttempts (Token.ofText text).length tried
  -- every rule recorded was attempted at the place, and there is one since reading failed
  have hfrontier : Frontier.Advances (Expectable (Token.ofText text)) _ _ _ frontier :=
    Frontier.advances_ofAttempts (fun _ _ => Expectable.ahead_le)
      (Phrase.request_expectable fun _ => Token.proper_of_mem_ofChars)
  obtain ⟨first, hfirst⟩ := List.exists_mem_of_ne_nil _
    (hfrontier.rules_ne_nil (Or.inr (Phrase.exists_failed_of_request hread)))
  have hexpected : ∀ rule, rule ∈ (Diagnosis.ofAttempts text tried).expected
      ↔ rule ∈ frontier.rules := fun rule => by simp [Diagnosis.ofAttempts, frontier, Rule.mem_all]
  obtain ⟨front, back, htext, hposition, hcontinues⟩ :=
    (hfrontier.tracks.fits first hfirst).continues
  have hbefore : (Diagnosis.ofAttempts text tried).before = front := by
    show text.toList.take (Diagnosis.positionOf text frontier.place) = front
    rw [hposition, htext, List.take_left]
  have hstrings : text = String.ofList front ++ String.ofList back := by
    rw [← String.ofList_append, ← htext, String.ofList_toList]
  refine ⟨Diagnosis.ofAttempts text tried, String.ofList front, String.ofList back, ?_, hstrings,
    ?_, ?_, ?_, ?_, fun rule hrule => ?_, ?_⟩
  · rw [ofText, hread]
  · rw [String.length_ofList]
    exact hposition
  · rw [Diagnosis.offset, hbefore]
  · rw [Diagnosis.offset, hbefore]
    exact String.Pos.Raw.isValid_iff_exists_append.mpr ⟨_, _, hstrings, rfl⟩
  · exact List.ne_nil_of_mem ((hexpected first).mpr hfirst)
  · obtain ⟨front', back', htext', hposition', hcontinues'⟩ :=
      (hfrontier.tracks.fits rule ((hexpected rule).mp hrule)).continues
    have hfront : front' = front := by
      rw [htext'] at htext
      exact (List.append_inj htext (hposition'.symm.trans hposition)).1
    rwa [String.toList_ofList, ← hfront]
  · rw [String.toList_ofList]
    exact hcontinues.exists_accepts

/-- After a comma in a body there may be another entry of any kind.  Where none begins, all of these
    are expected, and each of them can go on from the comma. -/
theorem diagnosis_sound_gene_after_comma :
    ∃ (text : String) (diagnosis : Diagnosis), text = "Gene() \x7b name, ! \x7d"
      ∧ ¬ Accepts text.toList ∧ (ofText text).2 = .error (.malformed diagnosis)
      ∧ diagnosis.offset = 15
      ∧ diagnosis.expected = [.ident, .labels, .relationships, .graph, .properties]
      ∧ ∀ rule ∈ diagnosis.expected, rule.Continues "Gene() \x7b name, ".toList := by
  let text := "Gene() \x7b name, ! \x7d"
  have htokens : Token.ofText text = [.ident "Gene", .punctuation .leftParen,
      .punctuation .rightParen, .punctuation .leftBrace, .ident "name", .punctuation .comma,
      .stray '!', .punctuation .rightBrace] := by
    decide +kernel
  have hread : (Phrase.request (Token.ofText text)).value = none := by
    rw [htokens]
    rfl
  have hdiagnosis : Diagnosis.ofAttempts text (Phrase.request (Token.ofText text)).tried
      = ⟨text, 15, [.ident, .labels, .relationships, .graph, .properties]⟩ := by
    decide +kernel
  have hrejected : ¬ Accepts text.toList := by
    rw [accepts_iff, ← Token.ofText_eq_ofChars, hread]
    rintro ⟨read, ⟨⟩⟩
  obtain ⟨diagnosis, front, back, hfault, htext, hposition, hoffset, -, -, hcontinues, -⟩ :=
    diagnosis_sound hrejected
  obtain rfl : ⟨text, 15, [.ident, .labels, .relationships, .graph, .properties]⟩ = diagnosis := by
    rw [ofText, hread, hdiagnosis] at hfault
    injection hfault with hfault
    injection hfault
  have hfront : front.toList = "Gene() \x7b name, ".toList := by
    have happend : text.toList = front.toList ++ back.toList := by rw [htext, String.toList_append]
    have htake : text.toList.take 15 = front.toList := by
      rw [happend, List.take_left' hposition.symm]
    rw [← htake]
    decide +kernel
  rw [hfront] at hcontinues
  exact ⟨text, _, rfl, hrejected, hfault, by decide +kernel, rfl, hcontinues⟩

end Request

end GraphRequest
