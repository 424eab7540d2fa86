import GraphRequest.Proofs.Diagnosis.Soundness
import Mathlib.Data.List.Chain

/-!
# Blanks between tokens

How a request is laid out makes no difference.  Blanks can be put in and taken out wherever a token
does not go on, and all that has to be kept is one blank behind the word `as`: everywhere else a
mark stands between two words.

* `Token.LaidOut` — that a text consists of given tokens with blanks before, between and behind
  them.  `Token.laidOut_ofChars` — every text is laid out so from its own tokens, which is why two
  texts with the same tokens differ by blanks between tokens.
* `Derivation.Node.wordsApart` — in a request two words meet only behind `as`.
* `Token.LaidOut.ofChars_eq` — hence scanning finds the tokens of a request in every layout.
* **`Request.ofText_of_laidOut`** — what is accepted goes on being accepted in another layout, and
  comes to the same.
-/

namespace GraphRequest

open GraphRequest.Derivation

namespace Token

/-- That a text consists of given tokens, with any blanks before, between and behind them.  Behind
    the word `as` there is a blank at least, where a name comes next. -/
inductive LaidOut : List Token → List Char → Prop
  | done {blanks : List Char} (hblanks : ∀ c ∈ blanks, c.isWhitespace = true) : LaidOut [] blanks
  | token {blanks rest : List Char} {token : Token} {tokens : List Token}
      (hblanks : ∀ c ∈ blanks, c.isWhitespace = true) (hrest : LaidOut tokens rest)
      (hkept : token = .ident "as" → (∃ name more, tokens = .ident name :: more) →
        ∃ c cs, rest = c :: cs ∧ c.isWhitespace = true) :
      LaidOut (token :: tokens) (blanks ++ token.spelling ++ rest)

/-- **Every text is laid out from its own tokens.** -/
theorem laidOut_ofChars (cs : List Char) : LaidOut (ofChars cs) cs := by
  generalize htokens : ofChars cs = tokens
  induction tokens generalizing cs with
  | nil =>
      obtain ⟨blanks, hcs, hblanks⟩ :=
        Stretch.star_oneOf_iff.mp (Stretch.blanks_of_ofChars_eq_nil htokens)
      rw [List.append_nil] at hcs
      exact hcs ▸ .done hblanks
  | cons token tokens ih =>
      obtain ⟨blanks, rest, rfl, hblanks, hrest, -, hends⟩ := ofChars_eq_cons htokens
      refine .token hblanks (ih rest hrest) ?_
      rintro rfl ⟨name, more, rfl⟩
      -- without a blank the word would go on with the name
      obtain ⟨gap, after, rfl, hgap, -, hname, -⟩ := ofChars_eq_cons hrest
      cases gap with
      | nil =>
          obtain ⟨c, cs, hcs, hc, -⟩ := hname
          have hfirst := hends "as" rfl c (by rw [spelling, hcs]; rfl)
          rw [isNameChar_of_isNameStart hc] at hfirst
          exact absurd hfirst (by decide)
      | cons c gap => exact ⟨c, _, rfl, hgap c List.mem_cons_self⟩

/-- That two words meet only where the first is `as` and the second is a name. -/
def Meets (token next : Token) : Prop :=
  token.isWord = true → next.isWord = true → token = .ident "as" ∧ ∃ name, next = .ident name

/-- That no two words of several tokens meet but behind `as`. -/
abbrev WordsApart (tokens : List Token) : Prop :=
  tokens.IsChain Meets

lemma WordsApart.cons {token : Token} {tokens : List Token} (h : WordsApart tokens)
    (hmeet : token.isWord = false ∨ NoWord tokens) : WordsApart (token :: tokens) := by
  refine List.isChain_cons.mpr ⟨fun next hnext hword hnextWord => ?_, h⟩
  rcases hmeet with hmark | hnoword
  · exact absurd hword (by simp [hmark])
  · exact absurd hnextWord (by simp [hnoword next hnext])

lemma WordsApart.append {tokens more : List Token} (h : WordsApart tokens) (hmore : WordsApart more)
    (hnoword : NoWord more) : WordsApart (tokens ++ more) := by
  refine List.isChain_append.mpr ⟨h, hmore, fun token _ next hnext _ hnextWord => ?_⟩
  exact absurd hnextWord (by simp [hnoword next hnext])

lemma WordsApart.enclosed {tokens more : List Token} (h : WordsApart tokens)
    (hmore : WordsApart more) (opening closing : Punctuation) :
    WordsApart (enclosedTokens opening closing tokens ++ more) := by
  have hclosing : WordsApart (.punctuation closing :: more) := hmore.cons (Or.inl rfl)
  have hinside : WordsApart (.punctuation opening :: (tokens ++ .punctuation closing :: more)) :=
    (h.append hclosing (by simp [isWord])).cons (Or.inl rfl)
  simpa [enclosedTokens] using hinside

end Token

/-! ## Where words meet -/

namespace Derivation

open Stretch Token

lemma wordsApart_rounds {parts : List (List Token)} (h : ∀ part ∈ parts, WordsApart part) :
    WordsApart (parts.flatMap fun tokens => .punctuation .comma :: tokens) := by
  induction parts with
  | nil => exact .nil
  | cons part parts ih =>
      obtain ⟨hpart, hparts⟩ := List.forall_mem_cons.mp h
      rw [List.flatMap_cons, List.cons_append]
      exact (hpart.append (ih hparts) (noWord_rounds _)).cons (Or.inl rfl)

lemma wordsApart_separated {part : List Token} (hpart : WordsApart part)
    {parts : List (List Token)} (hparts : ∀ part ∈ parts, WordsApart part) :
    WordsApart (separatedTokens part parts) :=
  hpart.append (wordsApart_rounds hparts) (noWord_rounds _)

lemma wordsApart_separatedLoosely {part : List Token} (hpart : WordsApart part)
    {parts : List (List Token)} (hparts : ∀ part ∈ parts, WordsApart part) (comma : Bool) :
    WordsApart (separatedTokens part parts ++ commaTokens comma) := by
  have hseparated := wordsApart_separated hpart hparts
  cases comma with
  | true => exact hseparated.append (.singleton _) (by simp [commaTokens, isWord])
  | false => rwa [commaTokens, if_neg (by decide), List.append_nil]

lemma wordsApart_params (parameters : List Parameter) {more : List Token}
    (hmore : WordsApart more) : WordsApart (paramsTokens parameters ++ more) := by
  have hparam : ∀ parameter, WordsApart (paramTokens parameter) := by
    intro parameter
    have hvalue : WordsApart [valueToken parameter.value] := .singleton _
    exact (hvalue.cons (Or.inl rfl)).cons (Or.inr (by simp [isWord]))
  cases parameters with
  | nil => exact WordsApart.enclosed .nil hmore .leftParen .rightParen
  | cons first rest =>
      refine WordsApart.enclosed (wordsApart_separated (hparam first) ?_) hmore .leftParen
        .rightParen
      intro part hpart
      obtain ⟨parameter, -, rfl⟩ := List.mem_map.mp hpart
      exact hparam parameter

/-- The name of an alias is the only word that comes after a word. -/
lemma wordsApart_alias (nodeAlias : Option String) {more : List Token} (hmore : WordsApart more)
    (hnoword : NoWord more) : WordsApart (aliasTokens nodeAlias ++ more) := by
  cases nodeAlias with
  | none => exact hmore
  | some name =>
      have hname : WordsApart (.ident name :: more) := hmore.cons (Or.inr hnoword)
      exact List.isChain_cons_cons.mpr ⟨fun _ _ => ⟨rfl, name, rfl⟩, hname⟩

mutual

/-- **In a request two words meet only behind `as`.** -/
theorem Node.wordsApart : ∀ node : Node, WordsApart node.tokens
  | .mk typeName params nodeAlias body => by
      have hbody : WordsApart (enclosedTokens .leftBrace .rightBrace (bodyTokens body) ++ []) :=
        WordsApart.enclosed (bodyApart body) .nil _ _
      rw [List.append_nil] at hbody
      have halias := wordsApart_alias nodeAlias hbody (by simp [enclosedTokens, isWord])
      exact (wordsApart_params params halias).cons
        (Or.inr (by simp [paramsTokens, enclosedTokens, isWord]))
termination_by structural node => node

lemma Item.wordsApart : ∀ item : Item, WordsApart item.tokens
  | .field _ => .singleton _
  | .node node => node.wordsApart
termination_by structural item => item

lemma Entry.wordsApart : ∀ entry : Entry, WordsApart entry.tokens
  | .directive _ => .singleton _
  | .item item => item.wordsApart
  | .properties items => by
      have hblock : WordsApart (enclosedTokens .leftBrace .rightBrace (blockTokens items) ++ []) :=
        WordsApart.enclosed (blockApart items) .nil _ _
      rw [List.append_nil] at hblock
      exact hblock.cons (Or.inr (by simp [enclosedTokens, isWord]))
termination_by structural entry => entry

lemma bodyApart : ∀ body : Block Entry, WordsApart (bodyTokens body)
  | .empty => .nil
  | .filled first rest comma =>
      wordsApart_separatedLoosely first.wordsApart (entriesApart rest) comma
termination_by structural body => body

lemma blockApart : ∀ block : Block Item, WordsApart (blockTokens block)
  | .empty => .nil
  | .filled first rest comma =>
      wordsApart_separatedLoosely first.wordsApart (itemsApart rest) comma
termination_by structural block => block

lemma entriesApart : ∀ entries : List Entry, ∀ part ∈ entryTokens entries, WordsApart part
  | [] => List.forall_mem_nil _
  | entry :: entries => List.forall_mem_cons.mpr ⟨entry.wordsApart, entriesApart entries⟩
termination_by structural entries => entries

lemma itemsApart : ∀ items : List Item, ∀ part ∈ itemTokens items, WordsApart part
  | [] => List.forall_mem_nil _
  | item :: items => List.forall_mem_cons.mpr ⟨item.wordsApart, itemsApart items⟩
termination_by structural items => items

end

end Derivation

/-! ## Scanning another layout -/

namespace Token

/-- Nothing but a word goes on with a name. -/
lemma nameEnds_spelling {token : Token} (hwhole : token.Whole) (hword : token.isWord = false)
    (rest : List Char) : NameEnds (token.spelling ++ rest) := by
  cases token with
  | ident name => exact nomatch hword
  | number digits => exact nomatch hword
  | bound name => exact nameEnds_cons.mpr rfl
  | string text => exact nameEnds_cons.mpr rfl
  | punctuation mark => exact nameEnds_cons.mpr (by cases mark <;> rfl)
  | unclosed name => exact hwhole.elim
  | stray c => exact hwhole.elim

lemma nameEnds_blanks {blanks rest : List Char} (hblanks : ∀ c ∈ blanks, c.isWhitespace = true)
    (hrest : NameEnds rest) : NameEnds (blanks ++ rest) := by
  cases blanks with
  | nil => exact hrest
  | cons c blanks =>
      exact nameEnds_cons.mpr (isNameChar_of_isWhitespace (hblanks c List.mem_cons_self))

/-- A layout of tokens that begin with no word does not go on with a name. -/
lemma LaidOut.nameEnds {tokens : List Token} {cs : List Char} (h : LaidOut tokens cs)
    (hwhole : ∀ token ∈ tokens, token.Whole) (hnoword : NoWord tokens) : NameEnds cs := by
  cases h with
  | done hblanks =>
      have hnone : NameEnds [] := by simp [NameEnds]
      simpa using nameEnds_blanks hblanks hnone
  | token hblanks hrest hkept =>
      rw [List.append_assoc]
      exact nameEnds_blanks hblanks
        (nameEnds_spelling (hwhole _ List.mem_cons_self) (by simpa using hnoword) _)

lemma ends_of_not_isWord {token : Token} (h : token.isWord = false) (rest : List Char) :
    token.Ends rest := by
  cases token with
  | ident name => exact nomatch h
  | number digits => exact nomatch h
  | _ => trivial

/-- A token ends where the layout of those behind it begins. -/
lemma ends_of_laidOut {token : Token} {tokens : List Token} {rest : List Char}
    (hrest : LaidOut tokens rest) (hwhole : ∀ next ∈ tokens, next.Whole)
    (hmeets : ∀ next ∈ tokens.head?, Meets token next)
    (hkept : token = .ident "as" → (∃ name more, tokens = .ident name :: more) →
      ∃ c cs, rest = c :: cs ∧ c.isWhitespace = true) : token.Ends rest := by
  cases hword : token.isWord with
  | false => exact ends_of_not_isWord hword rest
  | true =>
      refine ends_of_nameEnds ?_ token
      by_cases hnoword : NoWord tokens
      · exact hrest.nameEnds hwhole hnoword
      · -- a word comes next, so this one is `as` and a blank was kept
        obtain ⟨next, hnext, hnextWord⟩ :
            ∃ next, tokens.head? = some next ∧ next.isWord = true := by
          simpa [NoWord] using hnoword
        obtain ⟨rfl, name, rfl⟩ := hmeets next hnext hword hnextWord
        obtain ⟨c, cs, rfl, hc⟩ := hkept rfl ⟨name, _, List.eq_cons_of_mem_head? hnext⟩
        exact nameEnds_cons.mpr (isNameChar_of_isWhitespace hc)

/-- **A layout has the tokens that were laid out**, if words are apart. -/
theorem LaidOut.ofChars_eq {tokens : List Token} {cs : List Char} (h : LaidOut tokens cs)
    (hwhole : ∀ token ∈ tokens, token.Whole) (hapart : WordsApart tokens) :
    ofChars cs = tokens := by
  induction h with
  | @done blanks hblanks =>
      have hnone := ofChars_blanks hblanks []
      rwa [List.append_nil, ofChars_nil] at hnone
  | @token blanks rest token tokens hblanks hrest hkept ih =>
      obtain ⟨htoken, hmore⟩ := List.forall_mem_cons.mp hwhole
      obtain ⟨hmeets, hapart⟩ := List.isChain_cons.mp hapart
      have hends := ends_of_laidOut hrest hmore hmeets hkept
      rw [List.append_assoc, ofChars_blanks hblanks, ofChars_spelling htoken hends, ih hmore hapart]

end Token

/-! ## Texts in every layout -/

namespace Request

/-- Texts come to the same if they are derived and their derivations ask for the same. -/
lemma ofText_congr {node node' : Derivation.Node} {text text' : String}
    (hderives : node.Derives text) (hderives' : node'.Derives text')
    (hsame : ofPhrase none node.settle.phrase = ofPhrase none node'.settle.phrase) :
    ofText text' = ofText text := by
  simp only [ofText, Phrase.value_request_of_derives hderives,
    Phrase.value_request_of_derives hderives', hsame]

/-- **Blanks between tokens make no difference.**  Another layout of the tokens of an accepted text
    is accepted, and what comes of it is the same tree or the same fault, with the same nodes
    registered before. -/
theorem ofText_of_laidOut {text text' : String} (haccepts : Peg.Accepts text.toList)
    (h : Token.LaidOut (Token.ofText text) text'.toList) :
    Peg.Accepts text'.toList ∧ ofText text' = ofText text := by
  obtain ⟨⟨node, hnode⟩, hwhole⟩ := Peg.mem_sentences_of_accepts haccepts
  have hderives : node.Derives text := derives_iff.mpr hnode.symm
  have htokens : Token.ofText text' = node.tokens := by
    rw [derives_iff.mp hderives] at h
    exact h.ofChars_eq (hnode ▸ hwhole) node.wordsApart
  have hderives' : node.Derives text' := derives_iff.mpr htokens
  exact ⟨Peg.accepts_of_derives hderives', ofText_congr hderives hderives' rfl⟩

/-- A gene with its traits, without the blanks that are not needed and with some in other places. -/
theorem ofText_of_laidOut_gene_with_traits :
    ∃ text text' : String, Peg.Accepts text.toList
      ∧ Token.LaidOut (Token.ofText text) text'.toList
      ∧ text = "Gene() \x7b name, Trait(relationship: \":has\") as t \x7b p \x7d \x7d"
      ∧ text' = "\n Gene()\x7bname ,Trait(relationship:\":has\")as\tt\x7bp\x7d\x7d\r\n"
      ∧ Peg.Accepts text'.toList ∧ ofText text' = ofText text := by
  let text := "Gene() \x7b name, Trait(relationship: \":has\") as t \x7b p \x7d \x7d"
  let text' := "\n Gene()\x7bname ,Trait(relationship:\":has\")as\tt\x7bp\x7d\x7d\r\n"
  have hsame : Token.ofText text' = Token.ofText text := by decide +kernel
  have hderives : (Derivation.Node.mk "Gene" [] none (.filled (.item (.field "name"))
      [.item (.node (.mk "Trait" [⟨"relationship", .string ":has"⟩] (some "t")
        (.filled (.item (.field "p")) [] false)))] false)).Derives text :=
    derives_iff.mpr (by decide +kernel)
  have haccepts := Peg.accepts_of_derives hderives
  have hlaid : Token.LaidOut (Token.ofText text) text'.toList := by
    rw [← hsame]
    exact Token.laidOut_ofChars text'.toList
  exact ⟨text, text', haccepts, hlaid, rfl, rfl, ofText_of_laidOut haccepts hlaid⟩

end Request

end GraphRequest
