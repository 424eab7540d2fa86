import GraphRequest.Phrase.Grammar
import GraphRequest.Proofs.Phrase.Tokens

/-!
# What is read has a derivation

The readers of phrases try one alternative after the other and repeat as long as they can.  Here
they are compared with derivations, on tokens, in the easy direction.

* `Reader.value_bind` and its companions say what the readers read; the attempts they make have no
  influence on it.
* `Reader.Consumes` — a reader and the tokens it takes, for repetition.
* `Phrase.node_sound` — what was read is the phrase of a derivation, and the tokens that were
  taken are its tokens.
-/

namespace GraphRequest

/-! ## What readers read -/

namespace Reader

variable {α β : Type}

@[simp] lemma value_pure (x : α) (tokens : List Token) :
    ((pure x : Reader α) tokens).value = some (x, tokens) := rfl

@[simp] lemma value_bind (first : Reader α) (next : α → Reader β) (tokens : List Token) :
    ((first >>= next) tokens).value
      = (first tokens).value.bind fun (x, rest) => (next x rest).value := by
  show (andThen first next tokens).value = _
  cases h : (first tokens).value <;> simp [andThen, h]

@[simp] lemma value_map (f : α → β) (reader : Reader α) (tokens : List Token) :
    ((f <$> reader) tokens).value
      = (reader tokens).value.map fun (x, rest) => (f x, rest) := by
  show ((reader >>= fun x => pure (f x)) tokens).value = _
  rw [value_bind]
  cases (reader tokens).value <;> rfl

@[simp] lemma value_orElse (first second : Reader α) (tokens : List Token) :
    ((first <|> second) tokens).value = (first tokens).value.or (second tokens).value := by
  show (orElse first (fun _ => second) tokens).value = _
  cases h : (first tokens).value <;> simp [orElse, h]

lemma value_optional (reader : Reader α) (tokens : List Token) :
    (optional reader tokens).value
      = ((reader tokens).value.map fun (x, rest) => (some x, rest)).or (some (none, tokens)) := by
  show ((some <$> reader <|> pure none : Reader (Option α)) tokens).value = _
  rw [value_orElse, value_map, value_pure]

@[simp] lemma value_attempt (rule : Rule) (reader : Reader α) (tokens : List Token) :
    (attempt rule reader tokens).value = (reader tokens).value := rfl

@[simp] lemma value_token_nil (accept : Token → Option α) : (token accept []).value = none := rfl

@[simp] lemma value_token_cons (accept : Token → Option α) (front : Token) (rest : List Token) :
    (token accept (front :: rest)).value = (accept front).map fun x => (x, rest) := rfl

/-- A mark is read where it stands and nowhere else. -/
lemma value_punctuation (mark : Punctuation) (tokens : List Token) (rest : List Token) :
    (punctuation mark tokens).value = some ((), rest) ↔ tokens = .punctuation mark :: rest := by
  cases tokens with
  | nil => simp [punctuation]
  | cons front tokens =>
      by_cases h : front = .punctuation mark <;> simp [punctuation, h]

@[simp] lemma value_punctuation_cons (mark : Punctuation) (rest : List Token) :
    (punctuation mark (.punctuation mark :: rest)).value = some ((), rest) := by
  simp [punctuation]

/-- A word is read where it stands and nowhere else. -/
lemma value_word (text : String) (tokens : List Token) (rest : List Token) :
    (word text tokens).value = some ((), rest) ↔ tokens = .ident text :: rest := by
  cases tokens with
  | nil => simp [word]
  | cons front tokens =>
      by_cases h : front = .ident text <;> simp [word, h]

@[simp] lemma value_word_cons (text : String) (rest : List Token) :
    (word text (.ident text :: rest)).value = some ((), rest) := by
  simp [word]

/-! ### Repetition -/

/-- That the tokens a reader takes are related to the value it gives. -/
def Consumes (reader : Reader α) (spells : α → List Token → Prop) : Prop :=
  ∀ tokens x rest, (reader tokens).value = some (x, rest) →
    ∃ used, tokens = used ++ rest ∧ spells x used

section

variable {reader : Reader α} {spells : α → List Token → Prop}

/-- Rounds of a comma and one more thing. -/
lemma Consumes.rounds (h : reader.Consumes spells) {limit : Nat} {tokens rest : List Token}
    {xs : List α}
    (hread : (manyUpTo (do punctuation .comma; reader) limit tokens).value = some (xs, rest)) :
    ∃ parts, tokens = (parts.flatMap fun part => .punctuation .comma :: part) ++ rest
      ∧ List.Forall₂ spells xs parts := by
  induction limit generalizing tokens xs with
  | zero =>
      simp only [manyUpTo, value_pure, Option.some.injEq, Prod.mk.injEq] at hread
      obtain ⟨rfl, rfl⟩ := hread
      exact ⟨[], rfl, .nil⟩
  | succ limit ih =>
      rw [manyUpTo, value_orElse, Option.or_eq_some_iff] at hread
      rcases hread with hread | ⟨-, hread⟩
      · simp only [value_bind, value_pure, Option.bind_eq_some_iff, Prod.exists,
          Option.some.injEq, Prod.mk.injEq] at hread
        obtain ⟨x, ahead, ⟨_, start, hcomma, hx⟩, xs, after, hxs, rfl, rfl⟩ := hread
        obtain ⟨used, rfl, hused⟩ := h _ _ _ hx
        obtain ⟨parts, rfl, hparts⟩ := ih hxs
        refine ⟨used :: parts, ?_, .cons hused hparts⟩
        rw [(value_punctuation _ _ _).mp hcomma]
        simp
      · simp only [value_pure, Option.some.injEq, Prod.mk.injEq] at hread
        obtain ⟨rfl, rfl⟩ := hread
        exact ⟨[], rfl, .nil⟩

lemma Consumes.separated (h : reader.Consumes spells) {tokens rest : List Token} {xs : List α}
    (hread : (separated reader tokens).value = some (xs, rest)) :
    ∃ x xs' part parts, xs = x :: xs' ∧ tokens = Stretch.separatedTokens part parts ++ rest
      ∧ spells x part ∧ List.Forall₂ spells xs' parts := by
  simp only [Reader.separated, many, value_bind, value_pure, Option.bind_eq_some_iff, Prod.exists,
    Option.some.injEq, Prod.mk.injEq] at hread
  obtain ⟨x, ahead, hx, xs', after, hxs, rfl, rfl⟩ := hread
  obtain ⟨part, rfl, hpart⟩ := h _ _ _ hx
  obtain ⟨parts, rfl, hparts⟩ := h.rounds hxs
  exact ⟨x, xs', part, parts, rfl, by simp [Stretch.separatedTokens], hpart, hparts⟩

lemma Consumes.listedLoosely (h : reader.Consumes spells) {tokens rest : List Token}
    {xs : List α} (hread : (listedLoosely reader tokens).value = some (xs, rest)) :
    (xs = [] ∧ tokens = rest)
      ∨ ∃ x xs' part parts comma, xs = x :: xs'
        ∧ tokens = Stretch.separatedTokens part parts ++ Stretch.commaTokens comma ++ rest
        ∧ spells x part ∧ List.Forall₂ spells xs' parts := by
  rw [Reader.listedLoosely, value_orElse, Option.or_eq_some_iff] at hread
  rcases hread with hread | ⟨-, hnone⟩
  · simp only [value_bind, value_pure, value_optional, Option.bind_eq_some_iff, Prod.exists,
      Option.some.injEq, Prod.mk.injEq, Option.or_eq_some_iff, Option.map_eq_some_iff] at hread
    obtain ⟨xs, ahead, hxs, given, after, hcomma, rfl, rfl⟩ := hread
    obtain ⟨x, xs', part, parts, rfl, rfl, hpart, hparts⟩ := h.separated hxs
    refine Or.inr ⟨x, xs', part, parts, ?_⟩
    rcases hcomma with ⟨_, _, hread, -, rfl⟩ | ⟨-, -, rfl⟩
    · rw [(value_punctuation _ _ _).mp hread]
      exact ⟨true, rfl, by simp [Stretch.commaTokens], hpart, hparts⟩
    · exact ⟨false, rfl, by simp [Stretch.commaTokens], hpart, hparts⟩
  · simp only [value_pure, Option.some.injEq, Prod.mk.injEq] at hnone
    exact Or.inl ⟨hnone.1.symm, hnone.2⟩

end

end Reader

namespace Phrase

open Reader GraphRequest.Derivation

/-! ## Reading is sound -/

lemma ident_iff {tokens rest : List Token} {name : String} :
    (ident tokens).value = some (name, rest) ↔ tokens = .ident name :: rest := by
  cases tokens with
  | nil => simp [ident]
  | cons front tokens => cases front <;> simp [ident]

@[simp] lemma value_bound_nil : (bound []).value = none := rfl

@[simp] lemma value_bound_cons (front : Token) (rest : List Token) :
    (bound (front :: rest)).value
      = match front with
        | .bound name => some (name, rest)
        | _ => none := by
  cases front with
  | stray c =>
      unfold bound attempt
      dsimp only
      split <;> simp_all
  | _ => rfl

lemma value_iff {tokens rest : List Token} {v : Value} :
    (value tokens).value = some (v, rest) ↔ tokens = valueToken v :: rest := by
  cases tokens with
  | nil => cases v <;> simp [value, number, string]
  | cons front tokens =>
      cases front <;> cases v <;> simp [value, number, string, valueToken]

lemma param_iff {tokens rest : List Token} {parameter : Parameter} :
    (param tokens).value = some (parameter, rest) ↔ tokens = paramTokens parameter ++ rest := by
  obtain ⟨key, v⟩ := parameter
  simp only [param, value_attempt, value_bind, value_pure, Option.bind_eq_some_iff, Prod.exists,
    Option.some.injEq, Prod.mk.injEq, Parameter.mk.injEq]
  constructor
  · rintro ⟨key', ahead, hkey, _, ahead', hcolon, v', after, hv, ⟨rfl, rfl⟩, rfl⟩
    rw [ident_iff.mp hkey, (value_punctuation _ _ _).mp hcolon, value_iff.mp hv]
    rfl
  · rintro rfl
    exact ⟨key, _, ident_iff.mpr rfl, (), _, (value_punctuation _ _ _).mpr rfl, v, rest,
      value_iff.mpr rfl, ⟨rfl, rfl⟩, rfl⟩

@[simp] lemma value_directiveWord_nil (rule : Rule) (d : Directive) :
    (directiveWord rule d []).value = none := rfl

@[simp] lemma value_directiveWord_cons (rule : Rule) (d : Directive) (front : Token)
    (rest : List Token) :
    (directiveWord rule d (front :: rest)).value
      = if front = .ident d.word then some (d, rest) else none := by
  by_cases h : front = .ident d.word <;> simp [directiveWord, word, h]

lemma directive_iff {tokens rest : List Token} {d : Directive} :
    (directive tokens).value = some (d, rest) ↔ tokens = .ident d.word :: rest := by
  cases tokens with
  | nil => simp [directive]
  | cons front tokens =>
      by_cases h : front = .ident Directive.labels.word
      · cases d <;> simp [directive, h, Directive.word]
      by_cases h' : front = .ident Directive.relationships.word
      · cases d <;> simp [directive, h', Directive.word]
      by_cases h'' : front = .ident Directive.graph.word
      · cases d <;> simp [directive, h'', Directive.word]
      · cases d <;> simp [directive, h, h', h'']

lemma field_iff {tokens rest : List Token} {i : Item} :
    (field tokens).value = some (i, rest)
      ↔ ∃ name, i = .field name ∧ tokens = .ident name :: rest := by
  simp only [field, value_attempt, value_map, Option.map_eq_some_iff, Prod.exists, ident_iff,
    Prod.mk.injEq]
  constructor
  · rintro ⟨name, after, rfl, rfl, rfl⟩
    exact ⟨name, rfl, rfl⟩
  · rintro ⟨name, rfl, rfl⟩
    exact ⟨name, rest, rfl, rfl, rfl⟩

/-- What stands between two marks, as it is read. -/
lemma enclosed_iff {α : Type} (opening closing : Punctuation) (inside : Reader α)
    {tokens rest : List Token} {x : α} :
    ((do punctuation opening; let x ← inside; punctuation closing; return x : Reader α)
        tokens).value = some (x, rest)
      ↔ ∃ ahead, tokens = .punctuation opening :: ahead
          ∧ (inside ahead).value = some (x, .punctuation closing :: rest) := by
  simp only [value_bind, value_pure, Option.bind_eq_some_iff, Prod.exists, Option.some.injEq,
    Prod.mk.injEq]
  constructor
  · rintro ⟨_, ahead, hopening, x, after, hinside, _, after', hclosing, rfl, rfl⟩
    rw [(value_punctuation _ _ _).mp hclosing] at hinside
    exact ⟨ahead, (value_punctuation _ _ _).mp hopening, hinside⟩
  · rintro ⟨ahead, rfl, hinside⟩
    exact ⟨(), ahead, (value_punctuation _ _ _).mpr rfl, x, _, hinside, (), rest,
      (value_punctuation _ _ _).mpr rfl, rfl, rfl⟩

lemma params_sound {tokens rest : List Token} {parameters : List Parameter}
    (h : (params tokens).value = some (parameters, rest)) :
    tokens = paramsTokens parameters ++ rest := by
  rw [params, value_attempt, enclosed_iff] at h
  obtain ⟨ahead, rfl, hlisted⟩ := h
  rw [listed, value_orElse, Option.or_eq_some_iff] at hlisted
  rcases hlisted with hread | ⟨-, hnone⟩
  · have hparam : param.Consumes fun parameter used => used = paramTokens parameter :=
      fun _ _ _ hread => ⟨_, param_iff.mp hread, rfl⟩
    obtain ⟨first, others, part, parts, rfl, rfl, rfl, hparts⟩ := hparam.separated hread
    have hmap : parts = others.map paramTokens := by
      clear hread
      induction hparts with
      | nil => rfl
      | cons hpart _ ih => rw [hpart, ih, List.map_cons]
    simp [paramsTokens, enclosedTokens, hmap]
  · simp only [value_pure, Option.some.injEq, Prod.mk.injEq] at hnone
    obtain ⟨rfl, rfl⟩ := hnone
    simp [paramsTokens, enclosedTokens]

lemma nodeAlias_iff {tokens rest : List Token} {name : String} :
    (nodeAlias tokens).value = some (name, rest) ↔ tokens = .ident "as" :: .ident name :: rest := by
  simp only [nodeAlias, value_attempt, value_bind, Option.bind_eq_some_iff, Prod.exists]
  constructor
  · rintro ⟨_, ahead, hword, hname⟩
    rw [(value_word _ _ _).mp hword, ident_iff.mp hname]
  · rintro rfl
    exact ⟨(), _, (value_word _ _ _).mpr rfl, ident_iff.mpr rfl⟩

lemma optional_nodeAlias_sound {tokens rest : List Token} {given : Option String}
    (h : (optional nodeAlias tokens).value = some (given, rest)) :
    tokens = aliasTokens given ++ rest := by
  rw [value_optional, Option.or_eq_some_iff] at h
  rcases h with h | ⟨-, h⟩
  · rw [Option.map_eq_some_iff] at h
    obtain ⟨⟨name, after⟩, hname, heq⟩ := h
    simp only [Prod.mk.injEq] at heq
    obtain ⟨rfl, rfl⟩ := heq
    exact nodeAlias_iff.mp hname
  · simp only [Option.some.injEq, Prod.mk.injEq] at h
    obtain ⟨rfl, rfl⟩ := h
    rfl

/-- That a reader of nodes reads what nodes derive. -/
abbrev ReadsNodes (inner : Reader Node) : Prop :=
  inner.Consumes fun node used => ∃ derived : Derivation.Node, derived.phrase = node
    ∧ derived.tokens = used

section

variable {inner : Reader Node}

lemma item_sound (h : ReadsNodes inner) : (item inner).Consumes fun i used =>
    ∃ derived : Derivation.Item, derived.phrase = i ∧ derived.tokens = used := by
  intro tokens i rest hread
  rw [item, value_orElse, Option.or_eq_some_iff] at hread
  rcases hread with hnode | ⟨-, hfield⟩
  · rw [value_map, Option.map_eq_some_iff] at hnode
    obtain ⟨⟨node, after⟩, hnode, heq⟩ := hnode
    simp only [Prod.mk.injEq] at heq
    obtain ⟨rfl, rfl⟩ := heq
    obtain ⟨used, rfl, derived, rfl, rfl⟩ := h _ _ _ hnode
    exact ⟨_, rfl, .node derived, rfl, rfl⟩
  · obtain ⟨name, rfl, rfl⟩ := field_iff.mp hfield
    exact ⟨[.ident name], rfl, .field name, rfl, rfl⟩

lemma exists_items {items : List Item} {parts : List (List Token)}
    (h : List.Forall₂ (fun i used => ∃ derived : Derivation.Item, derived.phrase = i
      ∧ derived.tokens = used) items parts) :
    ∃ derived, itemPhrases derived = items ∧ itemTokens derived = parts := by
  induction h with
  | nil => exact ⟨[], rfl, rfl⟩
  | cons hitem _ ih =>
      obtain ⟨first, rfl, rfl⟩ := hitem
      obtain ⟨others, rfl, rfl⟩ := ih
      exact ⟨first :: others, rfl, rfl⟩

lemma properties_sound (h : ReadsNodes inner) : (properties inner).Consumes fun items used =>
    ∃ block, blockPhrase block = items ∧ (Derivation.Entry.properties block).tokens = used := by
  intro tokens items rest hread
  rw [properties, value_attempt, value_bind, Option.bind_eq_some_iff] at hread
  obtain ⟨⟨_, start⟩, hword, henclosed⟩ := hread
  obtain ⟨ahead, rfl, hlisted⟩ := (enclosed_iff _ _ _).mp henclosed
  rw [(value_word _ _ _).mp hword]
  rcases (item_sound h).listedLoosely hlisted with ⟨rfl, rfl⟩
    | ⟨_, _, _, parts, comma, rfl, rfl, ⟨first, rfl, rfl⟩, hparts⟩
  · exact ⟨_, by simp [Derivation.Entry.tokens, enclosedTokens, blockTokens], .empty, rfl, rfl⟩
  · obtain ⟨others, rfl, rfl⟩ := exists_items hparts
    exact ⟨_, by simp [Derivation.Entry.tokens, enclosedTokens, blockTokens],
      .filled first others comma, rfl, rfl⟩

lemma entry_sound (h : ReadsNodes inner) : (entry inner).Consumes fun e used =>
    ∃ derived : Derivation.Entry, derived.phrase = e ∧ derived.tokens = used := by
  intro tokens e rest hread
  simp only [entry, value_orElse, value_map, Option.or_eq_some_iff, Option.map_eq_some_iff,
    Prod.exists, Prod.mk.injEq] at hread
  rcases hread with ⟨node, after, hnode, rfl, rfl⟩ | ⟨-, hread⟩
  · obtain ⟨used, rfl, derived, rfl, rfl⟩ := h _ _ _ hnode
    exact ⟨_, rfl, .item (.node derived), rfl, rfl⟩
  rcases hread with ⟨d, after, hdirective, rfl, rfl⟩ | ⟨-, hread⟩
  · rw [directive_iff.mp hdirective]
    exact ⟨[.ident d.word], rfl, .directive d, rfl, rfl⟩
  rcases hread with ⟨items, after, hblock, rfl, rfl⟩ | ⟨-, i, after, hfield, rfl, rfl⟩
  · obtain ⟨used, rfl, block, rfl, rfl⟩ := properties_sound h _ _ _ hblock
    exact ⟨_, rfl, .properties block, rfl, rfl⟩
  · obtain ⟨name, rfl, rfl⟩ := field_iff.mp hfield
    exact ⟨[.ident name], rfl, .item (.field name), rfl, rfl⟩

lemma exists_entries {entries : List Entry} {parts : List (List Token)}
    (h : List.Forall₂ (fun e used => ∃ derived : Derivation.Entry, derived.phrase = e
      ∧ derived.tokens = used) entries parts) :
    ∃ derived, entryPhrases derived = entries ∧ entryTokens derived = parts := by
  induction h with
  | nil => exact ⟨[], rfl, rfl⟩
  | cons hentry _ ih =>
      obtain ⟨first, rfl, rfl⟩ := hentry
      obtain ⟨others, rfl, rfl⟩ := ih
      exact ⟨first :: others, rfl, rfl⟩

lemma body_sound (h : ReadsNodes inner) {tokens rest : List Token} {entries : List Entry}
    (hread : (body inner tokens).value = some (entries, rest)) :
    ∃ derived, bodyPhrase derived = entries
      ∧ tokens = enclosedTokens .leftBrace .rightBrace (bodyTokens derived) ++ rest := by
  rw [body, value_attempt, enclosed_iff] at hread
  obtain ⟨ahead, rfl, hlisted⟩ := hread
  rcases (entry_sound h).listedLoosely hlisted with ⟨rfl, rfl⟩
    | ⟨_, _, _, parts, comma, rfl, rfl, ⟨first, rfl, rfl⟩, hparts⟩
  · exact ⟨.empty, rfl, by simp [enclosedTokens, bodyTokens]⟩
  · obtain ⟨others, rfl, rfl⟩ := exists_entries hparts
    exact ⟨.filled first others comma, rfl, by simp [enclosedTokens, bodyTokens]⟩

lemma nodeAround_sound (h : ReadsNodes inner) : ReadsNodes (nodeAround inner) := by
  intro tokens node rest hread
  simp only [nodeAround, value_attempt, value_bind, value_pure, Option.bind_eq_some_iff,
    Prod.exists, Option.some.injEq, Prod.mk.injEq] at hread
  obtain ⟨typeName, ahead, hname, parameters, ahead', hparams, given, ahead'', halias, entries,
    after, hbody, rfl, rfl⟩ := hread
  obtain ⟨derived, rfl, rfl⟩ := body_sound h hbody
  refine ⟨(Derivation.Node.mk typeName parameters given derived).tokens, ?_, _, rfl, rfl⟩
  rw [ident_iff.mp hname, params_sound hparams, optional_nodeAlias_sound halias,
    Derivation.Node.tokens]
  simp

end

/-- **Reading is sound.**  What was read is the phrase of a derivation, and exactly its tokens were
    taken. -/
theorem node_sound (depth : Nat) : ReadsNodes (node depth) := by
  induction depth with
  | zero =>
      intro tokens n rest hread
      simp [node, fail] at hread
  | succ depth ih => exact nodeAround_sound ih

end Phrase

end GraphRequest
