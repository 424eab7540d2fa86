import GraphRequest.Proofs.Diagnosis.Frontier
import GraphRequest.Proofs.Phrase.Reading
import Mathlib.Computability.Language

/-!
# Nothing is attempted in vain

A rule is attempted wherever a reader looks for it: on branches that are given up, inside angle
brackets that never close, after commas that turn out to be the last.  Nevertheless every attempt
makes sense.  Whatever was read before it could have gone on with a match of the rule.

* `Derivation.spelled` — the tokens of what is derived, as a language.  `Derivation.sentences` are
  those of whole requests, and `Derivation.Begins` says of tokens that a sentence begins with them.
* `Expectable` — that a rule can be expected at a place: the tokens before it and a sample of the
  rule begin a sentence.
* `Reader.Explores` — that a reader takes what is in a language and, where all of the language can
  come next, attempts expectable rules only.
* `Reader.Explores.bind` and its companions — sequences, choices and repetitions explore the
  language that is put together from those of their parts.
* `Phrase.explores_node` — nodes explore the tokens of nodes, by induction on the depth.
* **`Phrase.request_expectable`** — hence every attempt at a text is at an expectable rule.
-/

namespace GraphRequest

open scoped Computability

/-- A token that is complete: nothing that comes after it can make it part of another one, a name or
    a numeral that goes on apart. -/
def Token.Whole : Token → Prop
  | .unclosed _ => False
  | .stray _ => False
  | token => token.Proper

/-! ## Sentences -/

namespace Derivation

variable {α : Type}

/-- The tokens of things that are derived, if all are whole. -/
def spelled (tokens : α → List Token) : Language Token :=
  {used | (∃ x, tokens x = used) ∧ ∀ token ∈ used, token.Whole}

/-- The tokens of requests. -/
abbrev sentences : Language Token :=
  spelled Node.tokens

/-- That a sentence begins with given tokens. -/
def Begins (before : List Token) : Prop :=
  ∃ after, before ++ after ∈ sentences

lemma Begins.whole {before : List Token} (h : Begins before) :
    ∀ token ∈ before, token.Whole := by
  obtain ⟨after, hsentence⟩ := h
  exact (List.forall_mem_append.mp hsentence.2).1

/-- That after given tokens all of a language can come next. -/
def Opens (before : List Token) (language : Language Token) : Prop :=
  ∀ used ∈ language, Begins (before ++ used)

section

variable {before : List Token} {language language' : Language Token}

lemma Opens.mono (h : Opens before language')
    (hle : ∀ used ∈ language, used ∈ language') : Opens before language :=
  fun used hused => h used (hle used hused)

/-- The first part can come next if both parts can, provided there is a second one. -/
lemma Opens.left (h : Opens before (language * language')) (hrest : ∃ used, used ∈ language') :
    Opens before language := by
  obtain ⟨rest, hrest⟩ := hrest
  intro used hused
  obtain ⟨after, hafter⟩ := h _ (Language.append_mem_mul hused hrest)
  exact ⟨rest ++ after, by simpa using hafter⟩

/-- The second part can come next after the first. -/
lemma Opens.right (h : Opens before (language * language')) {used : List Token}
    (hused : used ∈ language) : Opens (before ++ used) language' := by
  intro rest hrest
  rw [List.append_assoc]
  exact h _ (Language.append_mem_mul hused hrest)

end

end Derivation

/-! ## What can be expected -/

open GraphRequest.Derivation Stretch

/-- Tokens that match a rule. -/
def Rule.sample : Rule → List Token
  | .endOfInput => []
  | .ident => [.ident "x"]
  | .bound => [.bound "x"]
  | .number => [.number "0"]
  | .string => [.string ""]
  | .param => paramTokens ⟨"x", .number "0"⟩
  | .params => paramsTokens []
  | .nodeAlias => aliasTokens (some "x")
  | .labels => [.ident Directive.labels.word]
  | .relationships => [.ident Directive.relationships.word]
  | .graph => [.ident Directive.graph.word]
  | .field => [.ident "x"]
  | .properties => (Derivation.Entry.properties .empty).tokens
  | .body => enclosedTokens .leftBrace .rightBrace (bodyTokens .empty)
  | .node => (Derivation.Node.mk "x" [] none .empty).tokens

/-- **That a rule can be expected at a place in given tokens.**

* `front` — in front of a token: what comes before and a sample of the rule begin a sentence.
* `inside` — a name after the opening bracket of the next token: what comes before and a bound name
  begin a sentence.
* `finish` — the end, where what comes before is a sentence. -/
inductive Expectable (tokens : List Token) : Rule → Place → Prop
  | front {before ahead : List Token} {rule : Rule} (htokens : tokens = before ++ ahead)
      (hrule : rule ≠ .endOfInput) (h : Begins (before ++ rule.sample)) :
      Expectable tokens rule ⟨ahead.length, false⟩
  | inside {before ahead : List Token} {front : Token} (htokens : tokens = before ++ front :: ahead)
      (hfront : ∃ spelling, front.spelling = '<' :: spelling)
      (h : Begins (before ++ [.bound "x"])) :
      Expectable tokens .ident ⟨(front :: ahead).length, true⟩
  | finish {before ahead : List Token} (htokens : tokens = before ++ ahead)
      (h : before ∈ sentences) : Expectable tokens .endOfInput ⟨ahead.length, false⟩

lemma Expectable.ahead_le {tokens : List Token} {rule : Rule} {place : Place}
    (h : Expectable tokens rule place) : place.ahead ≤ tokens.length := by
  cases h <;> simp_all

namespace Reader

variable {α β : Type}

/-! ## The attempts of readers -/

@[simp] lemma tried_pure (x : α) (tokens : List Token) :
    ((pure x : Reader α) tokens).tried = [] := rfl

lemma mem_tried_bind {first : Reader α} {next : α → Reader β} {tokens : List Token}
    {attempt : Attempt} :
    attempt ∈ ((first >>= next) tokens).tried ↔ attempt ∈ (first tokens).tried
      ∨ ∃ x rest, (first tokens).value = some (x, rest) ∧ attempt ∈ (next x rest).tried := by
  change attempt ∈ (andThen first next tokens).tried ↔ _
  rcases hfirst : (first tokens).value with _ | ⟨x, rest⟩ <;> simp [andThen, hfirst]

lemma mem_tried_orElse {first second : Reader α} {tokens : List Token} {attempt : Attempt}
    (h : attempt ∈ ((first <|> second) tokens).tried) :
    attempt ∈ (first tokens).tried ∨ attempt ∈ (second tokens).tried := by
  change attempt ∈ (orElse first (fun _ => second) tokens).tried at h
  cases hfirst : (first tokens).value with
  | none =>
      rw [orElse, hfirst] at h
      exact List.mem_append.mp h
  | some read =>
      rw [orElse, hfirst] at h
      exact Or.inl h

/-! ## Exploring a language -/

/-- **That a reader explores a language.**

* `whole` — the tokens of the language are whole;
* `nonempty` — the language is not empty;
* `takes` — what the reader takes is in the language;
* `tries` — where all of the language can come next, the rules it attempts can be expected. -/
structure Explores (reader : Reader α) (language : Language Token) : Prop where
  whole : ∀ used ∈ language, ∀ token ∈ used, token.Whole
  nonempty : ∃ used, used ∈ language
  takes : ∀ {tokens x rest}, (∀ token ∈ tokens, token.Proper) →
    (reader tokens).value = some (x, rest) → ∃ used ∈ language, tokens = used ++ rest
  tries : ∀ {before tokens}, (∀ token ∈ tokens, token.Proper) → Opens before language →
    ∀ attempt ∈ (reader tokens).tried, attempt.All (Expectable (before ++ tokens))

section

variable {reader reader' : Reader α} {language language' : Language Token}

/-- A reader that explores a language explores a larger one. -/
lemma Explores.mono (h : reader.Explores language)
    (hle : ∀ used ∈ language, used ∈ language')
    (hwhole : ∀ used ∈ language', ∀ token ∈ used, token.Whole) : reader.Explores language' where
  whole := hwhole
  nonempty := h.nonempty.imp hle
  takes hproper hread := by
    obtain ⟨used, hused, htokens⟩ := h.takes hproper hread
    exact ⟨used, hle used hused, htokens⟩
  tries hproper hopens := h.tries hproper (hopens.mono hle)

/-- A reader explores what is derived, if all it takes is derived. -/
lemma Explores.derives {γ : Type} (h : reader.Explores language) {tokens : γ → List Token}
    (hderived : ∀ used ∈ language, ∃ x, tokens x = used) : reader.Explores (spelled tokens) :=
  h.mono (fun used hused => ⟨hderived used hused, h.whole used hused⟩) fun _ hused => hused.2

lemma explores_pure (x : α) : (pure x : Reader α).Explores 1 where
  whole used hused := by
    rw [Language.mem_one] at hused
    simp [hused]
  nonempty := ⟨[], Language.nil_mem_one⟩
  takes _ hread := by
    simp only [value_pure, Option.some.injEq, Prod.mk.injEq] at hread
    exact ⟨[], Language.nil_mem_one, hread.2⟩
  tries _ _ attempt hattempt := by simp at hattempt

lemma Explores.bind [Nonempty α] (h : reader.Explores language) {next : α → Reader β}
    (hnext : ∀ x, (next x).Explores language') :
    (reader >>= next).Explores (language * language') where
  whole used hused := by
    obtain ⟨front, hfront, back, hback, rfl⟩ := Language.mem_mul.mp hused
    refine List.forall_mem_append.mpr ⟨h.whole front hfront, ?_⟩
    exact (hnext (Classical.arbitrary α)).whole back hback
  nonempty := by
    obtain ⟨front, hfront⟩ := h.nonempty
    obtain ⟨back, hback⟩ := (hnext (Classical.arbitrary α)).nonempty
    exact ⟨front ++ back, Language.append_mem_mul hfront hback⟩
  takes hproper hread := by
    rw [value_bind, Option.bind_eq_some_iff] at hread
    obtain ⟨⟨x, middle⟩, hfirst, hsecond⟩ := hread
    obtain ⟨front, hfront, rfl⟩ := h.takes hproper hfirst
    obtain ⟨back, hback, rfl⟩ := (hnext x).takes (List.forall_mem_append.mp hproper).2 hsecond
    exact ⟨front ++ back, Language.append_mem_mul hfront hback, by simp⟩
  tries {before} _ hproper hopens attempt hattempt := by
    -- attempts at the second part are made after what the first one took
    rcases mem_tried_bind.mp hattempt with hfirst | ⟨x, rest, hread, hmore⟩
    · have hopens' := hopens.left (hnext (Classical.arbitrary α)).nonempty
      exact h.tries hproper hopens' attempt hfirst
    · obtain ⟨used, hused, rfl⟩ := h.takes hproper hread
      have hrest := (List.forall_mem_append.mp hproper).2
      rw [← List.append_assoc]
      exact (hnext x).tries hrest (hopens.right hused) attempt hmore

lemma Explores.map [Nonempty α] (h : reader.Explores language) (f : α → β) :
    (f <$> reader).Explores language := by
  have hmap := h.bind fun x => explores_pure (f x)
  rwa [mul_one] at hmap

lemma Explores.orElse (h : reader.Explores language) (h' : reader'.Explores language') :
    (reader <|> reader').Explores (language + language') where
  whole used hused := by
    rcases (Language.mem_add _ _ _).mp hused with hused | hused
    · exact h.whole used hused
    · exact h'.whole used hused
  nonempty := h.nonempty.imp fun _ hused => Or.inl hused
  takes hproper hread := by
    rw [value_orElse, Option.or_eq_some_iff] at hread
    rcases hread with hread | ⟨-, hread⟩
    · obtain ⟨used, hused, htokens⟩ := h.takes hproper hread
      exact ⟨used, Or.inl hused, htokens⟩
    · obtain ⟨used, hused, htokens⟩ := h'.takes hproper hread
      exact ⟨used, Or.inr hused, htokens⟩
  tries hproper hopens attempt hattempt := by
    rcases mem_tried_orElse hattempt with hattempt | hattempt
    · exact h.tries hproper (hopens.mono fun _ hused => Or.inl hused) attempt hattempt
    · exact h'.tries hproper (hopens.mono fun _ hused => Or.inr hused) attempt hattempt

lemma Explores.optional [Nonempty α] (h : reader.Explores language) :
    (Reader.optional reader).Explores (language + 1) :=
  (h.map some).orElse (explores_pure none)

/-- Rounds, after each of which there may be one more. -/
lemma Explores.manyUpTo [Nonempty α] (h : reader.Explores language) (rounds : Nat) :
    (Reader.manyUpTo reader rounds).Explores language∗ := by
  have hwhole : ∀ used ∈ language∗, ∀ token ∈ used, token.Whole := by
    intro used hused token htoken
    obtain ⟨parts, rfl, hparts⟩ := Language.mem_kstar.mp hused
    obtain ⟨part, hpart, htoken⟩ := List.mem_flatten.mp htoken
    exact h.whole part (hparts part hpart) token htoken
  induction rounds with
  | zero =>
      refine (explores_pure []).mono (fun used hused => ?_) hwhole
      rw [(Language.mem_one used).mp hused]
      exact Language.nil_mem_kstar language
  | succ rounds ih =>
      have hround : (do
          let x ← reader
          let xs ← Reader.manyUpTo reader rounds
          return x :: xs : Reader (List α)).Explores (language * (language∗ * 1)) :=
        h.bind fun x => ih.bind fun xs => explores_pure (x :: xs)
      rw [mul_one] at hround
      refine (hround.orElse (explores_pure [])).mono (fun used hused => ?_) hwhole
      rwa [add_comm, Language.one_add_self_mul_kstar_eq_kstar] at hused

lemma Explores.many [Nonempty α] (h : reader.Explores language) :
    (Reader.many reader).Explores language∗ where
  whole := (h.manyUpTo 0).whole
  nonempty := (h.manyUpTo 0).nonempty
  takes := (h.manyUpTo _).takes
  tries := (h.manyUpTo _).tries

/-- A reader of single tokens. -/
lemma explores_token {accept : Token → Option α} {language : Language Token}
    (hwhole : ∀ used ∈ language, ∀ token ∈ used, token.Whole)
    (hnonempty : ∃ used, used ∈ language)
    (haccept : ∀ front x, front.Proper → accept front = some x → [front] ∈ language) :
    (token accept).Explores language where
  whole := hwhole
  nonempty := hnonempty
  takes {tokens x rest} hproper hread := by
    cases tokens with
    | nil => simp at hread
    | cons front tokens =>
        rw [value_token_cons, Option.map_eq_some_iff] at hread
        obtain ⟨y, hy, heq⟩ := hread
        obtain ⟨rfl, rfl⟩ := Prod.mk.inj heq
        exact ⟨[front], haccept front y (hproper front List.mem_cons_self) hy, rfl⟩
  tries {before tokens} _ _ attempt hattempt := by
    cases tokens <;> simp [token] at hattempt

/-- **An attempt explores what is explored in it**, if it can be of the rule it is made for. -/
lemma Explores.attempt {rule : Rule} (h : reader.Explores language) (hrule : rule ≠ .endOfInput)
    (hsample : rule.sample ∈ language) : (Reader.attempt rule reader).Explores language where
  whole := h.whole
  nonempty := h.nonempty
  takes := h.takes
  tries hproper hopens attempt hattempt := by
    obtain rfl := List.mem_singleton.mp hattempt
    exact .mk (.front rfl hrule (hopens _ hsample)) (h.tries hproper hopens)

end

/-! ### Marks, words and lists -/

lemma explores_punctuation (mark : Punctuation) :
    (punctuation mark).Explores {[.punctuation mark]} := by
  refine explores_token ?_ ⟨_, rfl⟩ fun front x _ haccept => ?_
  · rintro used rfl
    exact List.forall_mem_singleton.mpr trivial
  · rw [Option.ite_none_right_eq_some] at haccept
    rw [haccept.1]
    rfl

lemma explores_word {text : String} (htext : IsName text) :
    (word text).Explores {[.ident text]} := by
  refine explores_token ?_ ⟨_, rfl⟩ fun front x _ haccept => ?_
  · rintro used rfl
    exact List.forall_mem_singleton.mpr htext
  · rw [Option.ite_none_right_eq_some] at haccept
    rw [haccept.1]
    rfl

section

variable [Nonempty α] {reader : Reader α} {language : Language Token}

/-- What stands between two marks. -/
lemma Explores.enclosed (h : reader.Explores language) (opening closing : Punctuation) :
    (do
      punctuation opening
      let x ← reader
      punctuation closing
      return x : Reader α).Explores
        ({[.punctuation opening]} * (language * {[.punctuation closing]})) := by
  have hclosing : ∀ x : α, (do punctuation closing; return x : Reader α).Explores
      ({[.punctuation closing]} * 1) :=
    fun x => (explores_punctuation closing).bind fun _ => explores_pure x
  rw [mul_one] at hclosing
  exact (explores_punctuation opening).bind fun _ => h.bind hclosing

lemma Explores.separated (h : reader.Explores language) :
    (Reader.separated reader).Explores (language * ({[.punctuation .comma]} * language)∗) := by
  have hrounds : ∀ x : α, (do
      let xs ← Reader.many do
        punctuation .comma
        reader
      return x :: xs : Reader (List α)).Explores
        (({[.punctuation .comma]} * language)∗ * 1) :=
    fun x => ((explores_punctuation .comma).bind fun _ => h).many.bind
      fun xs => explores_pure (x :: xs)
  rw [mul_one] at hrounds
  exact h.bind hrounds

lemma Explores.listedLoosely (h : reader.Explores language) :
    (Reader.listedLoosely reader).Explores
      (language * ({[.punctuation .comma]} * language)∗ * ({[.punctuation .comma]} + 1) + 1) := by
  have hcomma : ∀ xs : List α, (do
      let _ ← Reader.optional (punctuation .comma)
      return xs : Reader (List α)).Explores (({[.punctuation .comma]} + 1) * 1) :=
    fun xs => (explores_punctuation .comma).optional.bind fun _ => explores_pure xs
  rw [mul_one] at hcomma
  exact (h.separated.bind hcomma).orElse (explores_pure [])

end

end Reader

/-! ## What is explored is derived -/

namespace Derivation

variable {α : Type} {tokens : α → List Token} {used : List Token}

lemma exists_of_mem_enclosed {opening closing : Punctuation} {language : Language Token}
    (h : used ∈ ({[.punctuation opening]} * (language * {[.punctuation closing]})
      : Language Token)) :
    ∃ inside ∈ language, used = enclosedTokens opening closing inside := by
  obtain ⟨_, rfl, rest, hrest, rfl⟩ := Language.mem_mul.mp h
  obtain ⟨inside, hinside, _, rfl, rfl⟩ := Language.mem_mul.mp hrest
  exact ⟨inside, hinside, rfl⟩

lemma exists_of_mem_separated
    (h : used ∈ spelled tokens * ({[.punctuation .comma]} * spelled tokens)∗) :
    ∃ x, ∃ xs : List α, used = separatedTokens (tokens x) (xs.map tokens) := by
  obtain ⟨_, ⟨⟨x, rfl⟩, -⟩, rest, hrest, rfl⟩ := Language.mem_mul.mp h
  obtain ⟨rounds, rfl, hrounds⟩ := Language.mem_kstar.mp hrest
  have hxs : ∃ xs : List α, rounds.flatten
      = (xs.map tokens).flatMap (Token.punctuation .comma :: ·) := by
    clear h hrest
    induction rounds with
    | nil => exact ⟨[], rfl⟩
    | cons round rounds ih =>
        obtain ⟨hround, hmore⟩ := List.forall_mem_cons.mp hrounds
        obtain ⟨_, rfl, _, ⟨⟨y, rfl⟩, -⟩, rfl⟩ := Language.mem_mul.mp hround
        obtain ⟨xs, hxs⟩ := ih hmore
        exact ⟨y :: xs, by rw [List.flatten_cons, hxs]; rfl⟩
  obtain ⟨xs, hxs⟩ := hxs
  exact ⟨x, xs, by rw [hxs]; rfl⟩

lemma exists_of_mem_listedLoosely
    (h : used ∈ spelled tokens * ({[.punctuation .comma]} * spelled tokens)∗
      * ({[.punctuation .comma]} + 1) + 1) :
    used = [] ∨ ∃ x, ∃ xs : List α, ∃ comma,
      used = separatedTokens (tokens x) (xs.map tokens) ++ commaTokens comma := by
  rcases (Language.mem_add _ _ _).mp h with hsome | hnone
  · obtain ⟨_, hparts, last, hlast, rfl⟩ := Language.mem_mul.mp hsome
    obtain ⟨x, xs, rfl⟩ := exists_of_mem_separated hparts
    rcases (Language.mem_add _ _ _).mp hlast with rfl | hnone
    · exact Or.inr ⟨x, xs, true, rfl⟩
    · exact Or.inr ⟨x, xs, false, by rw [(Language.mem_one _).mp hnone]; rfl⟩
  · exact Or.inl ((Language.mem_one _).mp hnone)

lemma itemTokens_eq_map (items : List Item) : itemTokens items = items.map Item.tokens := by
  induction items with
  | nil => rfl
  | cons item items ih => rw [itemTokens, ih, List.map_cons]

lemma entryTokens_eq_map (entries : List Entry) :
    entryTokens entries = entries.map Entry.tokens := by
  induction entries with
  | nil => rfl
  | cons entry entries ih => rw [entryTokens, ih, List.map_cons]

end Derivation

namespace Phrase

open Reader

/-! ## The rules -/

lemma isName_x : IsName "x" := ⟨'x', [], rfl, rfl, by simp⟩

/-- The sample of a rule is whole. -/
lemma whole_sample (rule : Rule) : ∀ token ∈ rule.sample, token.Whole := by
  have hnumeral : IsNumeral "0" := ⟨by simp, List.all_eq_true.mp rfl⟩
  cases rule <;> simp [Rule.sample, Node.tokens, Entry.tokens, paramTokens, paramsTokens,
    aliasTokens, enclosedTokens, bodyTokens, blockTokens, valueToken, Token.Whole, Token.Proper,
    isName_x, isName_as, isName_properties, isName_word, hnumeral]

/-- A reader of one kind of tokens. -/
lemma explores_kind {rule : Rule} {kind : String → Token} {accept : Token → Option String}
    (hrule : rule ≠ .endOfInput) (hsample : ∃ text, rule.sample = [kind text])
    (haccept : ∀ front text, front.Proper → accept front = some text →
      front = kind text ∧ (kind text).Whole) :
    (attempt rule (token accept)).Explores (spelled fun text => [kind text]) := by
  have hmem : rule.sample ∈ spelled fun text => [kind text] :=
    ⟨hsample.imp fun _ => Eq.symm, whole_sample rule⟩
  refine (explores_token (fun _ hused => hused.2) ⟨_, hmem⟩ ?_).attempt hrule hmem
  intro front text hproper hfront
  obtain ⟨rfl, hwhole⟩ := haccept front text hproper hfront
  exact ⟨⟨text, rfl⟩, List.forall_mem_singleton.mpr hwhole⟩

lemma explores_ident : ident.Explores (spelled fun name => [.ident name]) := by
  refine explores_kind (by decide) ⟨"x", rfl⟩ fun front name hproper hfront => ?_
  cases front <;> cases hfront
  exact ⟨rfl, hproper⟩

lemma explores_number : number.Explores (spelled fun digits => [.number digits]) := by
  refine explores_kind (by decide) ⟨"0", rfl⟩ fun front name hproper hfront => ?_
  cases front <;> cases hfront
  exact ⟨rfl, hproper⟩

lemma explores_string : string.Explores (spelled fun text => [.string text]) := by
  refine explores_kind (by decide) ⟨"", rfl⟩ fun front name hproper hfront => ?_
  cases front <;> cases hfront
  exact ⟨rfl, hproper⟩

/-- A bound name is looked for right after an opening bracket, whatever comes after the name. -/
lemma explores_bound : bound.Explores (spelled fun name => [.bound name]) := by
  have hmem : Rule.bound.sample ∈ spelled fun name => [.bound name] :=
    ⟨⟨"x", rfl⟩, whole_sample .bound⟩
  refine Explores.attempt ⟨fun _ hused => hused.2, ⟨_, hmem⟩, ?_, ?_⟩ (by decide) hmem
  · intro tokens name rest hproper hread
    obtain rfl : tokens = .bound name :: rest := by
      split at hread <;> simp_all
    have hname : IsName name := hproper (.bound name) List.mem_cons_self
    exact ⟨[.bound name], ⟨⟨name, rfl⟩, List.forall_mem_singleton.mpr hname⟩, rfl⟩
  · intro before tokens _ hopens attempt hattempt
    have hinside : ∀ {stop front ahead}, tokens = front :: ahead →
        (∃ spelling, front.spelling = '<' :: spelling) →
        attempt ∈ [Attempt.mk .ident ⟨tokens.length, true⟩ stop []] →
        attempt.All (Expectable (before ++ tokens)) := by
      rintro stop front ahead rfl hfront hattempt
      obtain rfl := List.mem_singleton.mp hattempt
      exact .mk (.inside rfl hfront (hopens _ hmem)) (List.forall_mem_nil _)
    split at hattempt
    · exact hinside rfl ⟨_, rfl⟩ hattempt
    · exact hinside rfl ⟨_, rfl⟩ hattempt
    · exact hinside rfl ⟨_, rfl⟩ hattempt
    · simp at hattempt

instance : Nonempty Value := ⟨.number "0"⟩

instance : Nonempty Parameter := ⟨⟨"x", .number "0"⟩⟩

instance : Nonempty Directive := ⟨.labels⟩

instance : Nonempty Node := ⟨.mk "x" [] none []⟩

instance : Nonempty Item := ⟨.field "x"⟩

instance : Nonempty Entry := ⟨.directive .labels⟩

lemma explores_value : value.Explores (spelled fun value => [valueToken value]) := by
  refine ((explores_bound.map _).orElse ((explores_number.map _).orElse
    (explores_string.map _))).derives ?_
  rintro used (⟨⟨name, rfl⟩, -⟩ | ⟨⟨digits, rfl⟩, -⟩ | ⟨⟨text, rfl⟩, -⟩)
  · exact ⟨.bound name, rfl⟩
  · exact ⟨.number digits, rfl⟩
  · exact ⟨.string text, rfl⟩

lemma explores_param : param.Explores (spelled paramTokens) := by
  have hparam := explores_ident.bind fun key => (explores_punctuation .colon).bind fun _ =>
    explores_value.bind fun value => explores_pure (Parameter.mk key value)
  refine Explores.attempt (hparam.derives ?_) (by decide) ⟨⟨_, rfl⟩, whole_sample .param⟩
  intro used hused
  obtain ⟨_, ⟨⟨key, rfl⟩, -⟩, rest, hrest, rfl⟩ := Language.mem_mul.mp hused
  obtain ⟨_, rfl, last, hlast, rfl⟩ := Language.mem_mul.mp hrest
  rw [mul_one] at hlast
  obtain ⟨⟨value, rfl⟩, -⟩ := hlast
  exact ⟨⟨key, value⟩, rfl⟩

lemma explores_params : params.Explores (spelled paramsTokens) := by
  have hlisted : (listed param).Explores _ := explores_param.separated.orElse (explores_pure [])
  refine Explores.attempt ((hlisted.enclosed .leftParen .rightParen).derives ?_) (by decide)
    ⟨⟨[], rfl⟩, whole_sample .params⟩
  intro used hused
  obtain ⟨inside, hinside, rfl⟩ := exists_of_mem_enclosed hused
  rcases (Language.mem_add _ _ _).mp hinside with hsome | hnone
  · obtain ⟨first, rest, rfl⟩ := exists_of_mem_separated hsome
    exact ⟨first :: rest, rfl⟩
  · rw [(Language.mem_one _).mp hnone]
    exact ⟨[], rfl⟩

lemma explores_nodeAlias :
    nodeAlias.Explores (spelled fun name => aliasTokens (some name)) := by
  have halias := (explores_word isName_as).bind fun _ => explores_ident
  refine Explores.attempt (halias.derives ?_) (by decide) ⟨⟨"x", rfl⟩, whole_sample .nodeAlias⟩
  intro used hused
  obtain ⟨_, rfl, _, ⟨⟨name, rfl⟩, -⟩, rfl⟩ := Language.mem_mul.mp hused
  exact ⟨name, rfl⟩

lemma explores_optional_nodeAlias : (optional nodeAlias).Explores (spelled aliasTokens) := by
  refine explores_nodeAlias.optional.derives ?_
  intro used hused
  rcases (Language.mem_add _ _ _).mp hused with ⟨⟨name, rfl⟩, -⟩ | hnone
  · exact ⟨some name, rfl⟩
  · rw [(Language.mem_one _).mp hnone]
    exact ⟨none, rfl⟩

lemma explores_field : field.Explores (spelled fun name => [.ident name]) :=
  (explores_ident.map _).attempt (by decide) ⟨⟨"x", rfl⟩, whole_sample .field⟩

/-- The word of a directive, attempted as its rule. -/
lemma explores_directiveWord {rule : Rule} {directive : Directive} (hrule : rule ≠ .endOfInput)
    (hsample : rule.sample = [.ident directive.word]) :
    (directiveWord rule directive).Explores {[.ident directive.word]} := by
  have hword := (explores_word (isName_word directive)).bind fun _ => explores_pure directive
  rw [mul_one] at hword
  exact hword.attempt hrule hsample

lemma explores_directive :
    directive.Explores (spelled fun directive : Directive => [.ident directive.word]) := by
  refine ((explores_directiveWord (by decide) rfl).orElse
    ((explores_directiveWord (by decide) rfl).orElse
      (explores_directiveWord (by decide) rfl))).derives ?_
  rintro used (rfl | rfl | rfl)
  · exact ⟨.labels, rfl⟩
  · exact ⟨.relationships, rfl⟩
  · exact ⟨.graph, rfl⟩

/-! ### Nodes inside one another -/

section

variable {inner : Reader Node}

lemma explores_item (h : inner.Explores sentences) :
    (item inner).Explores (spelled Derivation.Item.tokens) := by
  refine ((h.map _).orElse explores_field).derives ?_
  rintro used (⟨⟨node, rfl⟩, -⟩ | ⟨⟨name, rfl⟩, -⟩)
  · exact ⟨.node node, rfl⟩
  · exact ⟨.field name, rfl⟩

lemma explores_properties (h : inner.Explores sentences) :
    (properties inner).Explores
      (spelled fun block => (Derivation.Entry.properties block).tokens) := by
  have hblock := (explores_item h).listedLoosely.enclosed .leftBrace .rightBrace
  have hproperties := (explores_word isName_properties).bind fun _ => hblock
  refine Explores.attempt (hproperties.derives ?_) (by decide)
    ⟨⟨.empty, rfl⟩, whole_sample .properties⟩
  intro used hused
  obtain ⟨_, rfl, rest, hrest, rfl⟩ := Language.mem_mul.mp hused
  obtain ⟨inside, hinside, rfl⟩ := exists_of_mem_enclosed hrest
  rcases exists_of_mem_listedLoosely hinside with rfl | ⟨first, items, comma, rfl⟩
  · exact ⟨.empty, rfl⟩
  · refine ⟨.filled first items comma, ?_⟩
    rw [Derivation.Entry.tokens, blockTokens, itemTokens_eq_map]
    rfl

lemma explores_entry (h : inner.Explores sentences) :
    (entry inner).Explores (spelled Derivation.Entry.tokens) := by
  refine ((h.map _).orElse ((explores_directive.map _).orElse
    (((explores_properties h).map _).orElse (explores_field.map _)))).derives ?_
  rintro used (⟨⟨node, rfl⟩, -⟩ | ⟨⟨directive, rfl⟩, -⟩ | ⟨⟨block, rfl⟩, -⟩ | ⟨⟨name, rfl⟩, -⟩)
  · exact ⟨.item (.node node), rfl⟩
  · exact ⟨.directive directive, rfl⟩
  · exact ⟨.properties block, rfl⟩
  · exact ⟨.item (.field name), rfl⟩

lemma explores_body (h : inner.Explores sentences) :
    (body inner).Explores
      (spelled fun body => enclosedTokens .leftBrace .rightBrace (bodyTokens body)) := by
  have hbody := (explores_entry h).listedLoosely.enclosed .leftBrace .rightBrace
  refine Explores.attempt (hbody.derives ?_) (by decide) ⟨⟨.empty, rfl⟩, whole_sample .body⟩
  intro used hused
  obtain ⟨inside, hinside, rfl⟩ := exists_of_mem_enclosed hused
  rcases exists_of_mem_listedLoosely hinside with rfl | ⟨first, entries, comma, rfl⟩
  · exact ⟨.empty, rfl⟩
  · refine ⟨.filled first entries comma, ?_⟩
    rw [bodyTokens, entryTokens_eq_map]

lemma explores_nodeAround (h : inner.Explores sentences) :
    (nodeAround inner).Explores sentences := by
  have hnode := explores_ident.bind fun typeName => explores_params.bind fun params =>
    explores_optional_nodeAlias.bind fun given => (explores_body h).bind fun entries =>
      explores_pure (Node.mk typeName params given entries)
  refine Explores.attempt (hnode.derives ?_) (by decide) ⟨⟨_, rfl⟩, whole_sample .node⟩
  intro used hused
  obtain ⟨_, ⟨⟨typeName, rfl⟩, -⟩, rest, hrest, rfl⟩ := Language.mem_mul.mp hused
  obtain ⟨_, ⟨⟨params, rfl⟩, -⟩, more, hmore, rfl⟩ := Language.mem_mul.mp hrest
  obtain ⟨_, ⟨⟨given, rfl⟩, -⟩, last, hlast, rfl⟩ := Language.mem_mul.mp hmore
  rw [mul_one] at hlast
  obtain ⟨⟨body, rfl⟩, -⟩ := hlast
  exact ⟨.mk typeName params given body, rfl⟩

end

/-- **Nodes explore the tokens of nodes**, to any depth. -/
theorem explores_node (depth : Nat) : (node depth).Explores sentences := by
  induction depth with
  | zero =>
      refine ⟨fun _ hused => hused.2, ⟨_, ⟨_, rfl⟩, whole_sample .node⟩, fun _ hread => ?_, ?_⟩
      · simp [node, fail] at hread
      · intro before tokens _ _ attempt hattempt
        simp [node, fail] at hattempt
  | succ depth ih => exact explores_nodeAround ih

/-! ## The whole text -/

lemma mem_tried_request {tokens : List Token} {attempt : Attempt} :
    attempt ∈ (request tokens).tried ↔ attempt ∈ (node (tokens.length + 1) tokens).tried
      ∨ ∃ root rest, (node (tokens.length + 1) tokens).value = some (root, rest)
        ∧ attempt ∈ (endOfInput rest).tried := by
  rw [request, mem_tried_bind]
  simp [mem_tried_bind]

/-- **Every attempt is at an expectable rule.** -/
theorem request_expectable {tokens : List Token} (hproper : ∀ token ∈ tokens, token.Proper) :
    ∀ attempt ∈ (request tokens).tried, attempt.All (Expectable tokens) := by
  intro attempt hattempt
  rcases mem_tried_request.mp hattempt with hnode | ⟨root, rest, hread, hend⟩
  · have hopens : Opens [] sentences := fun used hused => ⟨[], by simpa using hused⟩
    exact (explores_node _).tries hproper hopens attempt hnode
  · obtain ⟨used, hused, rfl⟩ := (explores_node _).takes hproper hread
    obtain rfl := List.mem_singleton.mp hend
    refine .mk (.finish rfl hused) fun inside hinside => ?_
    cases rest <;> simp at hinside

/-- If there is no request, then the attempt at a node or at the end failed. -/
theorem exists_failed_of_request {tokens : List Token} (h : (request tokens).value = none) :
    ∃ attempt ∈ (request tokens).tried, attempt.Failed := by
  cases hread : (node (tokens.length + 1) tokens).value with
  | none =>
      refine ⟨_, mem_tried_request.mpr (Or.inl (List.mem_singleton.mpr rfl)), ?_⟩
      exact Option.map_eq_none_iff.mpr hread
  | some read =>
      obtain ⟨root, rest⟩ := read
      have hrest : (endOfInput rest).value = none := by
        cases hend : (endOfInput rest).value with
        | none => rfl
        | some read => simp [request, hread, hend] at h
      refine ⟨_, mem_tried_request.mpr (Or.inr ⟨root, rest, hread, List.mem_singleton.mpr rfl⟩), ?_⟩
      exact Option.map_eq_none_iff.mpr hrest

end Phrase

end GraphRequest
