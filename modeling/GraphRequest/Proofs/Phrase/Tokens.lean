import GraphRequest.Proofs.Phrase.Derivation
import GraphRequest.Proofs.Token.Reading
import Mathlib.Data.List.Forall2

/-!
# A text is derived exactly if its tokens are

A derivation has tokens too, in the order in which it makes them (`Derivation.Node.tokens`).  This
file shows that nothing else about a text matters:
`Derivation.derives_iff : node.Derives text ↔ Token.ofText text = node.tokens`.

The grammar lets a name stop anywhere while scanning takes it as long as it goes on, so the two
could differ where a name runs into what follows it.  They do not, because after a name or a
numeral the grammar always has blanks or a mark.  `Stretch.Spells` carries this through the rules:
a stretch has given tokens **in front of** whatever does not begin with a word, and in front of
anything if it is closed off by itself.
-/

namespace GraphRequest

open Relation Token

namespace Stretch

/-! ## Stretches and tokens -/

/-- That a kind of stretch is what scanning finds as given tokens.

* `reads` — where such a stretch stands, these tokens are found; unless it is `closed`, something
  other than a word has to come next;
* `found` — where these tokens are found first, such a stretch stands after blanks. -/
structure Spells (part : Stretch) (tokens : List Token) (closed : Bool) : Prop where
  reads : ∀ {ahead after}, part ahead after → (closed = true ∨ NoWord (ofChars after)) →
    ofChars ahead = tokens ++ ofChars after
  found : ∀ {ahead more}, ofChars ahead = tokens ++ more →
    ∃ start after, blanks ahead start ∧ part start after ∧ ofChars after = more

/-- What is closed off can also stand in front of something other than a word. -/
lemma Spells.weaken {part : Stretch} {tokens : List Token} {closed : Bool}
    (h : Spells part tokens closed) : Spells part tokens false where
  reads hpart hnext := h.reads hpart (Or.inr (hnext.resolve_left (by simp)))
  found := h.found

/-- Any number of characters of a class. -/
lemma star_oneOf_iff {p : Char → Bool} {ahead after : List Char} :
    ReflTransGen (oneOf p) ahead after
      ↔ ∃ cs, ahead = cs ++ after ∧ ∀ c ∈ cs, p c = true := by
  constructor
  · intro h
    induction h using ReflTransGen.head_induction_on with
    | refl => exact ⟨[], rfl, by simp⟩
    | head hstep _ ih =>
        obtain ⟨c, hc, rfl⟩ := hstep
        obtain ⟨cs, rfl, hall⟩ := ih
        exact ⟨c :: cs, rfl, List.forall_mem_cons.mpr ⟨hc, hall⟩⟩
  · rintro ⟨cs, rfl, hall⟩
    induction cs with
    | nil => exact ReflTransGen.refl
    | cons c cs ih =>
        obtain ⟨hc, hcs⟩ := List.forall_mem_cons.mp hall
        exact ReflTransGen.head ⟨c, hc, rfl⟩ (ih hcs)

/-- Blanks have no tokens. -/
lemma ofChars_of_blanks {ahead after : List Char} (h : blanks ahead after) :
    ofChars ahead = ofChars after := by
  obtain ⟨cs, rfl, hall⟩ := star_oneOf_iff.mp h
  clear h
  induction cs with
  | nil => rfl
  | cons c cs ih =>
      obtain ⟨hc, hcs⟩ := List.forall_mem_cons.mp hall
      rw [List.cons_append, ofChars_blank hc, ih hcs]

/-- A text without tokens is blank. -/
lemma blanks_of_ofChars_eq_nil {cs : List Char} (h : ofChars cs = []) : blanks cs [] := by
  refine star_oneOf_iff.mpr ⟨cs, by simp, ?_⟩
  induction cs with
  | nil => simp
  | cons c cs ih =>
      by_cases hc : c.isWhitespace = true
      · rw [ofChars_blank hc] at h
        exact List.forall_mem_cons.mpr ⟨hc, ih h⟩
      · rw [ofChars_cons (by simpa using hc)] at h
        simp at h

/-- Where a token is found, its spelling stands after blanks. -/
lemma found_token {ahead : List Char} {token : Token} {more : List Token}
    (h : ofChars ahead = token :: more) :
    ∃ after, blanks ahead (token.spelling ++ after) ∧ ofChars after = more ∧ token.Proper
      ∧ ∀ name, token = .ident name → ∀ c, after.head? = some c → isNameChar c = false := by
  obtain ⟨cs, after, rfl, hblank, hmore, hproper, hends⟩ := ofChars_eq_cons h
  exact ⟨after, star_oneOf_iff.mpr ⟨cs, by simp, hblank⟩, hmore, hproper, hends⟩

/-! ## The rules for single tokens -/

lemma spells_nothing : Spells nothing [] true where
  reads h _ := by rw [h]; rfl
  found {ahead more} h := ⟨ahead, ahead, ReflTransGen.refl, rfl, h⟩

lemma spells_mark (punctuation : Punctuation) :
    Spells (mark punctuation) [.punctuation punctuation] true where
  reads h _ := by
    rw [h, ofChars_punctuation]
    rfl
  found h := by
    obtain ⟨after, hblank, hmore, -, -⟩ := found_token h
    exact ⟨_, after, hblank, rfl, hmore⟩

lemma ident_iff {name : String} {ahead after : List Char} :
    ident name ahead after ↔ IsName name ∧ ahead = name.toList ++ after := by
  constructor
  · rintro ⟨⟨_, ⟨c, hc, rfl⟩, hstar⟩, hname⟩
    obtain ⟨cs, rfl, hall⟩ := star_oneOf_iff.mp hstar
    have hcs : name.toList = c :: cs := List.append_cancel_right (by simpa using hname.symm)
    exact ⟨⟨c, cs, hcs, hc, hall⟩, hname⟩
  · rintro ⟨⟨c, cs, hcs, hc, hall⟩, rfl⟩
    refine ⟨⟨cs ++ after, ⟨c, hc, by simp [hcs]⟩, star_oneOf_iff.mpr ⟨cs, rfl, hall⟩⟩, rfl⟩

lemma spells_ident (name : String) : Spells (ident name) [.ident name] false where
  reads h hnext := by
    obtain ⟨hname, rfl⟩ := ident_iff.mp h
    exact ofChars_ident hname fun c hc => isNameChar_of_noWord (hnext.resolve_left (by simp)) hc
  found h := by
    obtain ⟨after, hblank, hmore, hproper, -⟩ := found_token h
    exact ⟨_, after, hblank, ident_iff.mpr ⟨hproper, rfl⟩, hmore⟩

lemma number_iff {digits : String} {ahead after : List Char} :
    number digits ahead after ↔ IsNumeral digits ∧ ahead = digits.toList ++ after := by
  constructor
  · rintro ⟨hplus, hdigits⟩
    obtain ⟨middle, ⟨c, hc, rfl⟩, hstar⟩ := TransGen.head'_iff.mp hplus
    obtain ⟨cs, rfl, hall⟩ := star_oneOf_iff.mp hstar
    have hcs : digits.toList = c :: cs := List.append_cancel_right (by simpa using hdigits.symm)
    refine ⟨⟨by simp [hcs], ?_⟩, hdigits⟩
    rw [hcs]
    exact List.forall_mem_cons.mpr ⟨hc, hall⟩
  · rintro ⟨⟨hne, hall⟩, rfl⟩
    obtain ⟨c, cs, hcs⟩ := List.exists_cons_of_ne_nil hne
    rw [hcs] at hall
    obtain ⟨hc, hcs'⟩ := List.forall_mem_cons.mp hall
    refine ⟨TransGen.head'_iff.mpr ⟨cs ++ after, ⟨c, hc, by simp [hcs]⟩, ?_⟩, rfl⟩
    exact star_oneOf_iff.mpr ⟨cs, rfl, hcs'⟩

lemma spells_number (digits : String) : Spells (number digits) [.number digits] false where
  reads h hnext := by
    obtain ⟨hdigits, rfl⟩ := number_iff.mp h
    exact ofChars_number hdigits fun c hc => isDigit_of_noWord (hnext.resolve_left (by simp)) hc
  found h := by
    obtain ⟨after, hblank, hmore, hproper, -⟩ := found_token h
    exact ⟨_, after, hblank, number_iff.mpr ⟨hproper, rfl⟩, hmore⟩

lemma spells_bound (name : String) : Spells (bound name) [.bound name] true where
  reads h _ := by
    obtain ⟨inside, rfl, rest, hident, rfl⟩ := h
    obtain ⟨hname, rfl⟩ := ident_iff.mp hident
    exact ofChars_bound hname _
  found h := by
    obtain ⟨after, hblank, hmore, hproper, -⟩ := found_token h
    refine ⟨_, after, hblank, ⟨name.toList ++ '>' :: after, ?_, '>' :: after, ?_, rfl⟩, hmore⟩
    · simp [Token.spelling, literal]
    · exact ident_iff.mpr ⟨hproper, rfl⟩

lemma spells_string (text : String) : Spells (string text) [.string text] true where
  reads h _ := by
    obtain ⟨inside, rfl, rest, ⟨hstar, hinside⟩, rfl⟩ := h
    obtain ⟨cs, hcs, hall⟩ := star_oneOf_iff.mp hstar
    have htext : text.toList = cs := List.append_cancel_right (hinside.symm.trans hcs)
    rw [hinside]
    refine ofChars_string ?_ _
    rw [htext]
    intro hmem
    simpa using hall _ hmem
  found h := by
    obtain ⟨after, hblank, hmore, hproper, -⟩ := found_token h
    refine ⟨_, after, hblank,
      ⟨text.toList ++ '"' :: after, ?_, '"' :: after, ⟨?_, rfl⟩, rfl⟩, hmore⟩
    · simp [Token.spelling, literal]
    · refine star_oneOf_iff.mpr ⟨text.toList, rfl, fun c hc => ?_⟩
      simpa using fun h : c = '"' => hproper (h ▸ hc)

/-- A word in front of no character of a name is that word. -/
lemma spells_keyword {word : String} (hword : IsName word) :
    Spells (keyword word) [.ident word] true where
  reads h _ := by
    obtain ⟨after, rfl, rfl, hnext⟩ := h
    exact ofChars_ident hword hnext
  found h := by
    obtain ⟨after, hblank, hmore, -, hends⟩ := found_token h
    exact ⟨_, after, hblank, ⟨after, rfl, rfl, hends _ rfl⟩, hmore⟩

/-- A word that is not guarded has to be in front of something other than a word. -/
lemma spells_literal {word : String} (hword : IsName word) :
    Spells (literal word) [.ident word] false where
  reads h hnext := by
    rw [h]
    exact ofChars_ident hword fun c hc => isNameChar_of_noWord (hnext.resolve_left (by simp)) hc
  found h := by
    obtain ⟨after, hblank, hmore, -, -⟩ := found_token h
    exact ⟨_, after, hblank, rfl, hmore⟩

/-! ## The rules that combine -/

section

variable {front back : Stretch} {tokens more : List Token} {closed closed' : Bool}

/-- Between two stretches blanks change nothing, but two words must not meet. -/
lemma Spells.spaced (hfront : Spells front tokens closed) (hback : Spells back more closed')
    (hmeet : closed = true ∨ NoWord more ∧ (closed' = true → more ≠ [])) :
    Spells (front.spaced back) (tokens ++ more) closed' where
  reads h hnext := by
    obtain ⟨middle, hleft, start, hblank, hright⟩ := h
    have hmore := hback.reads hright hnext
    have hmiddle : ofChars middle = more ++ ofChars _ := (ofChars_of_blanks hblank).trans hmore
    rw [hfront.reads hleft, hmiddle, List.append_assoc]
    rcases hmeet with hclosed | ⟨hnoword, hne⟩
    · exact Or.inl hclosed
    · refine Or.inr ?_
      rw [hmiddle]
      exact hnoword.append fun hnil => hnext.resolve_left fun hclosed' => hne hclosed' hnil
  found h := by
    rw [List.append_assoc] at h
    obtain ⟨start, middle, hblank, hleft, hmiddle⟩ := hfront.found h
    obtain ⟨start', after, hblank', hright, hafter⟩ := hback.found hmiddle
    exact ⟨start, after, hblank, ⟨middle, hleft, start', hblank', hright⟩, hafter⟩

lemma Spells.after_mark (hback : Spells back more closed') (punctuation : Punctuation) :
    Spells ((mark punctuation).spaced back) (.punctuation punctuation :: more) closed' :=
  (spells_mark punctuation).spaced hback (Or.inl rfl)

/-- Closing marks keep words apart. -/
lemma Spells.before_mark (hfront : Spells front tokens closed) (punctuation : Punctuation) :
    Spells (front.spaced (mark punctuation)) (tokens ++ [.punctuation punctuation]) true :=
  hfront.spaced (spells_mark punctuation) (Or.inr ⟨by simp [isWord], by simp⟩)

lemma Spells.enclosed (hfront : Spells front tokens closed) (opening closing : Punctuation) :
    Spells (enclosed opening closing front)
      (.punctuation opening :: (tokens ++ [.punctuation closing])) true :=
  (hfront.before_mark closing).after_mark opening

end

/-- The tokens of a part and of rounds of more after commas. -/
def separatedTokens (part : List Token) (parts : List (List Token)) : List Token :=
  part ++ parts.flatMap fun tokens => .punctuation .comma :: tokens

/-- The token of an optional comma. -/
def commaTokens (comma : Bool) : List Token :=
  if comma then [.punctuation .comma] else []

lemma noWord_rounds (parts : List (List Token)) :
    NoWord (parts.flatMap fun tokens => .punctuation .comma :: tokens) := by
  cases parts with
  | nil => simp
  | cons part parts => simp [isWord]

/-- Parts that are stretches with given tokens, one by one. -/
abbrev AllSpell (parts : List Stretch) (tokens : List (List Token)) : Prop :=
  List.Forall₂ (fun part tokens => Spells part tokens false) parts tokens

lemma spells_rounds {parts : List Stretch} {tokens : List (List Token)}
    (h : AllSpell parts tokens) :
    Spells (rounds parts) (tokens.flatMap fun tokens => .punctuation .comma :: tokens) false := by
  induction h with
  | nil => exact spells_nothing.weaken
  | cons hpart _ ih =>
      rw [List.flatMap_cons, List.cons_append]
      exact (hpart.spaced ih (Or.inr ⟨noWord_rounds _, by simp⟩)).after_mark .comma

lemma spells_separated {part : Stretch} {tokens : List Token} (hpart : Spells part tokens false)
    {parts : List Stretch} {tokens' : List (List Token)} (h : AllSpell parts tokens') :
    Spells (separated part parts) (separatedTokens tokens tokens') false :=
  hpart.spaced (spells_rounds h) (Or.inr ⟨noWord_rounds _, by simp⟩)

lemma spells_separatedLoosely {part : Stretch} {tokens : List Token}
    (hpart : Spells part tokens false) {parts : List Stretch} {tokens' : List (List Token)}
    (h : AllSpell parts tokens') (comma : Bool) :
    Spells (separatedLoosely part parts comma)
      (separatedTokens tokens tokens' ++ commaTokens comma) false := by
  cases comma with
  | true => exact ((spells_separated hpart h).before_mark .comma).weaken
  | false =>
      exact (spells_separated hpart h).spaced spells_nothing.weaken
        (Or.inr ⟨by simp [commaTokens], by simp⟩)

end Stretch

/-! ## The tokens of a derivation -/

namespace Derivation

open Stretch

/-- The token of a value. -/
def valueToken : Value → Token
  | .bound name => .bound name
  | .number digits => .number digits
  | .string text => .string text

/-- The tokens of a parameter. -/
def paramTokens (parameter : Parameter) : List Token :=
  [.ident parameter.key, .punctuation .colon, valueToken parameter.value]

/-- Tokens between two marks. -/
def enclosedTokens (opening closing : Punctuation) (tokens : List Token) : List Token :=
  .punctuation opening :: (tokens ++ [.punctuation closing])

/-- The tokens of the parameters of a node. -/
def paramsTokens (parameters : List Parameter) : List Token :=
  enclosedTokens .leftParen .rightParen <|
    match parameters with
    | [] => []
    | first :: rest => separatedTokens (paramTokens first) (rest.map paramTokens)

/-- The tokens of an alias. -/
def aliasTokens : Option String → List Token
  | none => []
  | some name => [.ident "as", .ident name]

mutual

/-- The tokens of a node. -/
def Node.tokens : Node → List Token
  | .mk typeName params nodeAlias body =>
    .ident typeName :: (paramsTokens params ++
      (aliasTokens nodeAlias ++ enclosedTokens .leftBrace .rightBrace (bodyTokens body)))
termination_by structural node => node

/-- The tokens of an item. -/
def Item.tokens : Item → List Token
  | .field name => [.ident name]
  | .node node => node.tokens
termination_by structural item => item

/-- The tokens of an entry. -/
def Entry.tokens : Entry → List Token
  | .directive directive => [.ident directive.word]
  | .item item => item.tokens
  | .properties items =>
    .ident "properties" :: enclosedTokens .leftBrace .rightBrace (blockTokens items)
termination_by structural entry => entry

/-- The tokens between the braces of a body. -/
def bodyTokens : Block Entry → List Token
  | .empty => []
  | .filled first rest comma => separatedTokens first.tokens (entryTokens rest) ++ commaTokens comma
termination_by structural body => body

/-- The tokens between the braces of a `properties` block. -/
def blockTokens : Block Item → List Token
  | .empty => []
  | .filled first rest comma => separatedTokens first.tokens (itemTokens rest) ++ commaTokens comma
termination_by structural block => block

/-- The tokens of several entries. -/
def entryTokens : List Entry → List (List Token)
  | [] => []
  | entry :: entries => entry.tokens :: entryTokens entries
termination_by structural entries => entries

/-- The tokens of several items. -/
def itemTokens : List Item → List (List Token)
  | [] => []
  | item :: items => item.tokens :: itemTokens items
termination_by structural items => items

end

/-! ## Every rule has its tokens -/

lemma spells_value (value : Value) :
    ∃ closed, Spells (Stretch.value value) [valueToken value] closed := by
  cases value with
  | bound name => exact ⟨true, spells_bound name⟩
  | number digits => exact ⟨false, spells_number digits⟩
  | string text => exact ⟨true, spells_string text⟩

lemma spells_param (parameter : Parameter) :
    Spells (param parameter) (paramTokens parameter) false := by
  obtain ⟨closed, hvalue⟩ := spells_value parameter.value
  exact (spells_ident _).spaced (hvalue.weaken.after_mark .colon)
    (Or.inr ⟨by simp [isWord], by simp⟩)

lemma spells_params (parameters : List Parameter) :
    Spells (params parameters) (paramsTokens parameters) true := by
  cases parameters with
  | nil => exact spells_nothing.enclosed .leftParen .rightParen
  | cons first rest =>
      refine (spells_separated (spells_param first) ?_).enclosed .leftParen .rightParen
      induction rest with
      | nil => exact .nil
      | cons parameter rest ih => exact .cons (spells_param parameter) ih

lemma isName_as : IsName "as" := ⟨'a', ['s'], rfl, rfl, List.all_eq_true.mp rfl⟩

lemma isName_properties : IsName "properties" :=
  ⟨'p', "roperties".toList, by decide, rfl, List.all_eq_true.mp (by decide)⟩

lemma isName_word (directive : Directive) : IsName directive.word := by
  cases directive with
  | labels => exact ⟨'l', "abels".toList, by decide, rfl, List.all_eq_true.mp (by decide)⟩
  | relationships =>
      exact ⟨'r', "elationships".toList, by decide, rfl, List.all_eq_true.mp (by decide)⟩
  | graph => exact ⟨'g', "raph".toList, by decide, rfl, List.all_eq_true.mp (by decide)⟩

lemma spells_alias (nodeAlias : Option String) :
    Spells (optional (nodeAlias.map Stretch.nodeAlias)) (aliasTokens nodeAlias) false := by
  cases nodeAlias with
  | none => exact spells_nothing.weaken
  | some name => exact (spells_keyword isName_as).spaced (spells_ident name) (Or.inl rfl)

mutual

lemma Node.spells : ∀ node : Node, Spells node.stretch node.tokens true
  | .mk typeName params nodeAlias body => by
      have hbody := (bodySpells body).enclosed .leftBrace .rightBrace
      have halias := (spells_alias nodeAlias).spaced hbody (Or.inr ⟨by simp [isWord], by simp⟩)
      have hparams := (spells_params params).spaced halias (Or.inl rfl)
      rw [Node.stretch, Node.tokens]
      exact (spells_ident typeName).spaced hparams
        (Or.inr ⟨by simp [enclosedTokens, isWord], by simp [enclosedTokens]⟩)
termination_by structural node => node

lemma Item.spells : ∀ item : Item, Spells item.stretch item.tokens false
  | .field name => spells_ident name
  | .node node => node.spells.weaken
termination_by structural item => item

lemma Entry.spells : ∀ entry : Entry, Spells entry.stretch entry.tokens false
  | .directive directive => (spells_keyword (isName_word directive)).weaken
  | .item item => item.spells
  | .properties items => by
      rw [Entry.stretch, Entry.tokens]
      exact ((spells_literal isName_properties).spaced
        ((blockSpells items).enclosed .leftBrace .rightBrace)
        (Or.inr ⟨by simp [isWord], by simp⟩)).weaken
termination_by structural entry => entry

lemma bodySpells : ∀ body : Block Entry, Spells (bodyStretch body) (bodyTokens body) false
  | .empty => spells_nothing.weaken
  | .filled first rest comma => spells_separatedLoosely first.spells (entriesSpell rest) comma
termination_by structural body => body

lemma blockSpells : ∀ block : Block Item, Spells (blockStretch block) (blockTokens block) false
  | .empty => spells_nothing.weaken
  | .filled first rest comma => spells_separatedLoosely first.spells (itemsSpell rest) comma
termination_by structural block => block

lemma entriesSpell : ∀ entries : List Entry,
    AllSpell (entryStretches entries) (entryTokens entries)
  | [] => .nil
  | entry :: entries => .cons entry.spells (entriesSpell entries)
termination_by structural entries => entries

lemma itemsSpell : ∀ items : List Item, AllSpell (itemStretches items) (itemTokens items)
  | [] => .nil
  | item :: items => .cons item.spells (itemsSpell items)
termination_by structural items => items

end

/-- **A text is derived exactly if its tokens are.**  All that a derivation leaves open is where
    blanks stand and how many. -/
theorem derives_iff {node : Node} {text : String} :
    node.Derives text ↔ Token.ofText text = node.tokens := by
  rw [ofText_eq_ofChars]
  constructor
  · rintro ⟨start, hbefore, after, hnode, hafter⟩
    have hnone : ofChars after = [] := by rw [ofChars_of_blanks hafter, ofChars_nil]
    rw [ofChars_of_blanks hbefore, node.spells.reads hnode (Or.inl rfl), hnone, List.append_nil]
  · intro h
    rw [← List.append_nil node.tokens] at h
    obtain ⟨start, after, hbefore, hnode, hafter⟩ := node.spells.found h
    exact ⟨start, hbefore, after, hnode, blanks_of_ofChars_eq_nil hafter⟩

end Derivation

end GraphRequest
