import GraphRequest.Proofs.Phrase.Reading

/-!
# A text is accepted exactly if it is derived

`Phrase.node_sound` is one half.  The other half is that no derivation is missed, although choice
is ordered and repetition greedy.

* **Complete** — `Derivation.Node.read`: in front of the tokens of a derivation the phrase of the
  settled derivation is read.  Ordered choice gives nothing away, because an alternative that is
  tried too early gives up on the token **after** the name it begins with; repetition gives nothing
  away, because no entry begins with a closing mark.
* **Unambiguous** — `Derivation.Node.eq_of_phrase`: the phrase and the tokens of a derivation
  determine it, the commas after last entries included.

Together they give `Phrase.request_reads_derived`: a text is read exactly if it has a derivation,
and it has only one, up to reading the word of a directive as a field.
-/

namespace GraphRequest

/-! ## Repetition in front of a closing mark -/

/-- What can stand right after an entry or a parameter: a comma or a closing mark. -/
def Stops (tokens : List Token) : Prop :=
  ∃ mark rest, tokens = .punctuation mark :: rest ∧ mark ∈ [.comma, .rightParen, .rightBrace]

lemma Stops.comma (rest : List Token) : Stops (.punctuation .comma :: rest) :=
  ⟨.comma, rest, rfl, by decide⟩

namespace Reader

open Stretch

variable {α : Type} {reader : Reader α}

/-- That a reader reads a thing in front of whatever can stand after it. -/
def Reads (reader : Reader α) (x : α) (part : List Token) : Prop :=
  ∀ rest, Stops rest → (reader (part ++ rest)).value = some (x, rest)

/-- That a reader gives up on punctuation marks. -/
def StopsAtMarks (reader : Reader α) : Prop :=
  ∀ mark rest, (reader (.punctuation mark :: rest)).value = none

lemma stops_rounds_append (parts : List (List Token)) {rest : List Token} (hrest : Stops rest) :
    Stops ((parts.flatMap fun part => .punctuation .comma :: part) ++ rest) := by
  cases parts with
  | nil => exact hrest
  | cons part parts => exact Stops.comma _

/-- All rounds are read, and then no more. -/
lemma value_manyUpTo_rounds {xs : List α} {parts : List (List Token)}
    (h : List.Forall₂ reader.Reads xs parts) {rest : List Token} (hrest : Stops rest)
    (hlast : ((do punctuation .comma; reader : Reader α) rest).value = none) :
    ∀ limit, xs.length ≤ limit →
      (manyUpTo (do punctuation .comma; reader) limit
        ((parts.flatMap fun part => .punctuation .comma :: part) ++ rest)).value
        = some (xs, rest) := by
  induction h with
  | nil =>
      intro limit _
      cases limit with
      | zero => rfl
      | succ limit => rw [manyUpTo, value_orElse, value_bind, List.flatMap_nil, List.nil_append,
          hlast, Option.bind_none, Option.none_or, value_pure]
  | @cons x part xs parts hpart _ ih =>
      intro limit hlimit
      obtain ⟨limit, rfl⟩ := Nat.exists_eq_succ_of_ne_zero (Nat.ne_of_gt (Nat.zero_lt_of_lt hlimit))
      have hround := hpart _ (stops_rounds_append parts hrest)
      rw [manyUpTo, value_orElse]
      simp only [List.flatMap_cons, List.cons_append, List.append_assoc, value_bind,
        value_punctuation_cons, Option.bind_some, hround, ih limit (Nat.le_of_succ_le_succ hlimit),
        value_pure, Option.some_or]

lemma value_separated {x : α} {part : List Token} (hpart : reader.Reads x part) {xs : List α}
    {parts : List (List Token)} (h : List.Forall₂ reader.Reads xs parts) {rest : List Token}
    (hrest : Stops rest)
    (hlast : ((do punctuation .comma; reader : Reader α) rest).value = none) :
    (separated reader (separatedTokens part parts ++ rest)).value = some (x :: xs, rest) := by
  have hfuel : xs.length
      ≤ ((parts.flatMap fun part => .punctuation .comma :: part) ++ rest).length := by
    rw [h.length_eq, List.length_append]
    refine Nat.le_add_right_of_le ?_
    clear h
    induction parts with
    | nil => exact Nat.zero_le _
    | cons part parts ih =>
        simp only [List.flatMap_cons, List.length_append, List.length_cons]
        omega
  rw [separated, separatedTokens, List.append_assoc, value_bind,
    hpart _ (stops_rounds_append parts hrest), Option.bind_some]
  simp only [value_bind, many, value_manyUpTo_rounds h hrest hlast _ hfuel, Option.bind_some,
    value_pure]

/-- After a comma in front of a closing mark there is nothing more to read. -/
lemma value_round_of_stopsAtMarks (hmarks : reader.StopsAtMarks) {closing : Punctuation}
    (hclosing : closing ≠ .comma) (comma : Bool) (rest : List Token) :
    ((do punctuation .comma; reader : Reader α)
      (commaTokens comma ++ .punctuation closing :: rest)).value = none := by
  cases comma with
  | true =>
      show ((do punctuation .comma; reader : Reader α)
        (.punctuation .comma :: .punctuation closing :: rest)).value = none
      rw [value_bind, value_punctuation_cons, Option.bind_some]
      exact hmarks _ _
  | false =>
      show ((do punctuation .comma; reader : Reader α) (.punctuation closing :: rest)).value = none
      rw [value_bind]
      simp [punctuation, hclosing]

lemma value_listedLoosely {x : α} {part : List Token} (hpart : reader.Reads x part) {xs : List α}
    {parts : List (List Token)} (h : List.Forall₂ reader.Reads xs parts)
    (hmarks : reader.StopsAtMarks) (comma : Bool) (rest : List Token) :
    (listedLoosely reader (separatedTokens part parts ++ commaTokens comma
        ++ .punctuation .rightBrace :: rest)).value
      = some (x :: xs, .punctuation .rightBrace :: rest) := by
  have hstops : Stops (commaTokens comma ++ .punctuation .rightBrace :: rest) := by
    cases comma with
    | true => exact Stops.comma _
    | false => exact ⟨.rightBrace, rest, rfl, by decide⟩
  have hread := value_separated hpart h hstops
    (value_round_of_stopsAtMarks hmarks (by decide) comma rest)
  rw [listedLoosely, value_orElse, List.append_assoc, value_bind, hread, Option.bind_some]
  simp only [value_bind, value_optional]
  cases comma <;> simp [commaTokens, punctuation]

lemma value_listedLoosely_nil (hmarks : reader.StopsAtMarks) (rest : List Token) :
    (listedLoosely reader (.punctuation .rightBrace :: rest)).value
      = some ([], .punctuation .rightBrace :: rest) := by
  rw [listedLoosely, value_orElse, value_bind, separated, value_bind, hmarks, Option.bind_none,
    Option.bind_none, Option.none_or, value_pure]

end Reader

namespace Phrase

open Reader GraphRequest.Derivation Stretch

/-! ## The rules without nodes -/

lemma param_stopsAtMarks : param.StopsAtMarks := by
  intro mark rest
  simp [param, ident]

lemma param_reads (parameter : Parameter) : param.Reads parameter (paramTokens parameter) :=
  fun _ _ => param_iff.mpr rfl

lemma params_complete (parameters : List Parameter) (rest : List Token) :
    (params (paramsTokens parameters ++ rest)).value = some (parameters, rest) := by
  rw [params, value_attempt, enclosed_iff]
  refine ⟨_, by simp [paramsTokens, enclosedTokens]; rfl, ?_⟩
  cases parameters with
  | nil => simp [listed, Reader.separated, param, ident]
  | cons first others =>
      have hothers : List.Forall₂ param.Reads others (others.map paramTokens) := by
        induction others with
        | nil => exact .nil
        | cons parameter others ih => exact .cons (param_reads parameter) ih
      have hstops : Stops (.punctuation .rightParen :: rest) := ⟨_, _, rfl, by decide⟩
      have hread := value_separated (param_reads first) hothers hstops
        (value_round_of_stopsAtMarks param_stopsAtMarks (by decide) false rest)
      rw [listed, value_orElse, hread, Option.some_or]

lemma nodeAlias_complete (given : Option String) (opening closing : Punctuation)
    (inside rest : List Token) :
    (optional nodeAlias
        (aliasTokens given ++ (enclosedTokens opening closing inside ++ rest))).value
      = some (given, enclosedTokens opening closing inside ++ rest) := by
  rw [value_optional]
  cases given with
  | none => simp [aliasTokens, enclosedTokens, nodeAlias, word]
  | some name =>
      have hread : (nodeAlias (aliasTokens (some name)
          ++ (enclosedTokens opening closing inside ++ rest))).value
          = some (name, enclosedTokens opening closing inside ++ rest) := nodeAlias_iff.mpr rfl
      rw [hread]
      rfl

lemma directive?_eq_some_iff {name : String} {d : Directive} :
    directive? name = some d ↔ name = d.word := by
  constructor
  · intro h
    have hword := List.find?_some h
    exact (beq_iff_eq.mp hword).symm
  · rintro rfl
    cases d <;> rfl

lemma value_directive_eq_none {name : String} (h : directive? name = none) (rest : List Token) :
    (directive (.ident name :: rest)).value = none := by
  refine Option.eq_none_iff_forall_not_mem.mpr fun ⟨d, after⟩ hread => ?_
  have htokens := directive_iff.mp hread
  simp only [List.cons.injEq, Token.ident.injEq] at htokens
  simp [directive?_eq_some_iff.mpr htokens.1] at h

/-! ## What gives up

Where an alternative is tried too early, it gives up.
-/

/-- A name that no parameters follow is no node. -/
lemma value_node_ident {name : String} {mark : Punctuation} (hmark : mark ≠ .leftParen)
    (rest : List Token) (depth : Nat) :
    (node depth (.ident name :: .punctuation mark :: rest)).value = none := by
  cases depth with
  | zero => rfl
  | succ depth => simp [node, nodeAround, ident, params, punctuation, hmark]

lemma node_stopsAtMarks (depth : Nat) : (node depth).StopsAtMarks := by
  intro mark rest
  cases depth with
  | zero => rfl
  | succ depth => simp [node, nodeAround, ident]

lemma item_stopsAtMarks (depth : Nat) : (item (node depth)).StopsAtMarks := by
  intro mark rest
  simp [item, field, ident, node_stopsAtMarks depth mark rest]

lemma entry_stopsAtMarks (depth : Nat) : (entry (node depth)).StopsAtMarks := by
  intro mark rest
  simp [entry, field, ident, directive, properties, word, node_stopsAtMarks depth mark rest]

/-- A field is read as a field by whatever tries nodes first. -/
lemma value_node_of_stops (name : String) {rest : List Token} (hrest : Stops rest) (depth : Nat) :
    (node depth (.ident name :: rest)).value = none := by
  obtain ⟨mark, rest, rfl, hmark⟩ := hrest
  exact value_node_ident (by rintro rfl; simp at hmark) rest depth

/-- `properties` opens a block only in front of a brace. -/
lemma value_properties_of_stops (inner : Reader Node) (name : String) {rest : List Token}
    (hrest : Stops rest) : (properties inner (.ident name :: rest)).value = none := by
  obtain ⟨mark, rest, rfl, hmark⟩ := hrest
  have hbrace : mark ≠ .leftBrace := by rintro rfl; simp at hmark
  by_cases hname : name = "properties" <;> simp [properties, word, punctuation, hname, hbrace]

end Phrase

namespace Derivation

open Reader Stretch

/-! ## Reading is complete -/

lemma lengths_le_of_separated {part : List Token} {parts : List (List Token)} {comma : Bool}
    {depth : Nat} (h : (separatedTokens part parts ++ commaTokens comma).length ≤ depth) :
    part.length ≤ depth ∧ ∀ other ∈ parts, other.length ≤ depth := by
  rw [separatedTokens, List.length_append, List.length_append] at h
  refine ⟨by omega, fun other hother => ?_⟩
  have hround : (.punctuation .comma :: other).length
      ≤ (parts.flatMap fun part => .punctuation .comma :: part).length :=
    (List.sublist_flatten_of_mem (List.mem_map_of_mem hother)).length_le
  rw [List.length_cons] at hround
  omega

mutual

/-- **Reading is complete.**  In front of the tokens of a derivation, with depth enough for the
    nodes inside, the phrase of the settled derivation is read. -/
theorem Node.read : ∀ (node : Node) (depth : Nat) (rest : List Token),
    node.tokens.length ≤ depth →
      (Phrase.node depth (node.tokens ++ rest)).value = some (node.settle.phrase, rest)
  | .mk typeName params nodeAlias body => by
      intro depth rest hdepth
      simp only [Node.tokens, enclosedTokens, List.length_cons, List.length_append] at hdepth
      obtain ⟨depth, rfl⟩ : ∃ fewer, depth = fewer + 1 := ⟨depth - 1, by omega⟩
      have hbody := bodyRead body depth rest (by omega)
      have hname : ∀ after, (Phrase.ident (.ident typeName :: after)).value
          = some (typeName, after) := fun _ => Phrase.ident_iff.mpr rfl
      rw [Phrase.node, Phrase.nodeAround, value_attempt, Node.tokens]
      simp only [List.cons_append, List.append_assoc, value_bind, hname, Option.bind_some,
        Phrase.params_complete, Phrase.nodeAlias_complete, hbody, value_pure, Node.settle,
        Node.phrase]
termination_by structural node => node

/-- An item is read in front of whatever can stand after it. -/
theorem Item.read : ∀ (item : Item) (depth : Nat), item.tokens.length ≤ depth →
    (Phrase.item (Phrase.node depth)).Reads item.settle.phrase item.tokens
  | .field name => by
      intro depth _ rest hrest
      rw [Phrase.item, value_orElse, value_map, Item.tokens, List.singleton_append,
        Phrase.value_node_of_stops name hrest]
      exact Phrase.field_iff.mpr ⟨name, rfl, rfl⟩
  | .node node => by
      intro depth hdepth rest _
      rw [Phrase.item, value_orElse, value_map, Item.tokens, node.read depth rest hdepth]
      rfl
termination_by structural item => item

/-- An entry is read in front of whatever can stand after it. -/
theorem Entry.read : ∀ (entry : Entry) (depth : Nat), entry.tokens.length ≤ depth →
    (Phrase.entry (Phrase.node depth)).Reads entry.settle.phrase entry.tokens
  | .directive directive => by
      intro depth _ rest hrest
      have hread : (Phrase.directive (.ident directive.word :: rest)).value
          = some (directive, rest) := Phrase.directive_iff.mpr rfl
      simp only [Phrase.entry, value_orElse, value_map, Entry.tokens, List.singleton_append,
        Phrase.value_node_of_stops _ hrest, hread, Entry.settle, Entry.phrase]
      rfl
  | .item (.field name) => by
      intro depth _ rest hrest
      have hnode := Phrase.value_node_of_stops name hrest depth
      cases hword : directive? name with
      | some directive =>
          have hread : (Phrase.directive (.ident name :: rest)).value = some (directive, rest) :=
            Phrase.directive_iff.mpr (by rw [Phrase.directive?_eq_some_iff.mp hword])
          simp only [Phrase.entry, value_orElse, value_map, Entry.tokens, Item.tokens,
            List.singleton_append, hnode, hread, Entry.settle, hword, Entry.phrase]
          rfl
      | none =>
          have hfield : (Phrase.field (.ident name :: rest)).value = some (.field name, rest) :=
            Phrase.field_iff.mpr ⟨name, rfl, rfl⟩
          simp only [Phrase.entry, value_orElse, value_map, Entry.tokens, Item.tokens,
            List.singleton_append, hnode, Phrase.value_directive_eq_none hword,
            Phrase.value_properties_of_stops _ name hrest, hfield, Entry.settle, hword,
            Entry.phrase, Item.phrase]
          rfl
  | .item (.node node) => by
      intro depth hdepth rest _
      simp only [Phrase.entry, value_orElse, value_map, Entry.tokens, Item.tokens,
        node.read depth rest hdepth, Entry.settle, Entry.phrase, Item.phrase]
      rfl
  | .properties items => by
      intro depth hdepth rest _
      simp only [Entry.tokens, enclosedTokens, List.length_cons, List.length_append] at hdepth
      have hnode : ∀ after, (Phrase.node depth
          (.ident "properties" :: .punctuation .leftBrace :: after)).value = none :=
        fun after => Phrase.value_node_ident (by decide) after depth
      have hdirective : ∀ after, (Phrase.directive (.ident "properties" :: after)).value = none :=
        Phrase.value_directive_eq_none (by decide)
      have hread := blockRead items depth rest (by omega)
      simp only [enclosedTokens, List.cons_append] at hread
      simp only [Phrase.entry, value_orElse, value_map, Entry.tokens, enclosedTokens,
        List.cons_append, hnode, hdirective, hread, Entry.settle, Entry.phrase]
      rfl
termination_by structural entry => entry

/-- The body of a node is read. -/
theorem bodyRead : ∀ (body : Block Entry) (depth : Nat) (rest : List Token),
    (bodyTokens body).length ≤ depth →
      (Phrase.body (Phrase.node depth)
        (enclosedTokens .leftBrace .rightBrace (bodyTokens body) ++ rest)).value
        = some (bodyPhrase (settleBody body), rest)
  | .empty => by
      intro depth rest _
      rw [Phrase.body, value_attempt, Phrase.enclosed_iff]
      exact ⟨_, rfl, value_listedLoosely_nil (Phrase.entry_stopsAtMarks depth) rest⟩
  | .filled first others comma => by
      intro depth rest hdepth
      obtain ⟨hfirst, hothers⟩ := lengths_le_of_separated hdepth
      have hread := value_listedLoosely (first.read depth hfirst)
        (entriesRead others depth hothers) (Phrase.entry_stopsAtMarks depth) comma rest
      rw [Phrase.body, value_attempt, Phrase.enclosed_iff]
      exact ⟨_, by simp [enclosedTokens, bodyTokens], hread⟩
termination_by structural body => body

/-- A block of properties is read. -/
theorem blockRead : ∀ (block : Block Item) (depth : Nat) (rest : List Token),
    (blockTokens block).length ≤ depth →
      (Phrase.properties (Phrase.node depth)
        (.ident "properties" :: enclosedTokens .leftBrace .rightBrace (blockTokens block)
          ++ rest)).value = some (blockPhrase (settleBlock block), rest)
  | .empty => by
      intro depth rest _
      rw [Phrase.properties, value_attempt, List.cons_append, value_bind, value_word_cons]
      refine (Phrase.enclosed_iff _ _ _).mpr ⟨_, rfl, ?_⟩
      exact value_listedLoosely_nil (Phrase.item_stopsAtMarks depth) rest
  | .filled first others comma => by
      intro depth rest hdepth
      obtain ⟨hfirst, hothers⟩ := lengths_le_of_separated hdepth
      have hread := value_listedLoosely (first.read depth hfirst)
        (itemsRead others depth hothers) (Phrase.item_stopsAtMarks depth) comma rest
      rw [Phrase.properties, value_attempt, List.cons_append, value_bind, value_word_cons]
      exact (Phrase.enclosed_iff _ _ _).mpr ⟨_, by simp [enclosedTokens, blockTokens], hread⟩
termination_by structural block => block

/-- Entries are read one by one. -/
theorem entriesRead : ∀ (entries : List Entry) (depth : Nat),
    (∀ part ∈ entryTokens entries, part.length ≤ depth) →
      List.Forall₂ (Phrase.entry (Phrase.node depth)).Reads
        (entryPhrases (settleEntries entries)) (entryTokens entries)
  | [] => fun _ _ => .nil
  | entry :: entries => fun depth h =>
      .cons (entry.read depth (h _ List.mem_cons_self))
        (entriesRead entries depth fun _ hpart => h _ (List.mem_cons_of_mem _ hpart))
termination_by structural entries => entries

/-- Items are read one by one. -/
theorem itemsRead : ∀ (items : List Item) (depth : Nat),
    (∀ part ∈ itemTokens items, part.length ≤ depth) →
      List.Forall₂ (Phrase.item (Phrase.node depth)).Reads
        (itemPhrases (settleItems items)) (itemTokens items)
  | [] => fun _ _ => .nil
  | item :: items => fun depth h =>
      .cons (item.read depth (h _ List.mem_cons_self))
        (itemsRead items depth fun _ hpart => h _ (List.mem_cons_of_mem _ hpart))
termination_by structural items => items

end

/-! ## Reading is unambiguous -/

mutual

/-- Settling changes no token: a directive has the token of the field it takes the place of. -/
theorem Node.tokens_settle : ∀ node : Node, node.settle.tokens = node.tokens
  | .mk _ _ _ body => by
      rw [Node.settle, Node.tokens, Node.tokens, bodyTokens_settle body]
termination_by structural node => node

lemma Item.tokens_settle : ∀ item : Item, item.settle.tokens = item.tokens
  | .field _ => rfl
  | .node node => node.tokens_settle
termination_by structural item => item

lemma Entry.tokens_settle : ∀ entry : Entry, entry.settle.tokens = entry.tokens
  | .directive _ => rfl
  | .item (.field name) => by
      rw [Entry.settle]
      cases hword : directive? name with
      | some directive =>
          rw [Phrase.directive?_eq_some_iff.mp hword]
          rfl
      | none => rfl
  | .item (.node node) => node.tokens_settle
  | .properties items => by
      rw [Entry.settle, Entry.tokens, Entry.tokens, blockTokens_settle items]
termination_by structural entry => entry

lemma bodyTokens_settle : ∀ body : Block Entry, bodyTokens (settleBody body) = bodyTokens body
  | .empty => rfl
  | .filled first others _ => by
      rw [settleBody, bodyTokens, bodyTokens, first.tokens_settle, entryTokens_settle others]
termination_by structural body => body

lemma blockTokens_settle : ∀ block : Block Item,
    blockTokens (settleBlock block) = blockTokens block
  | .empty => rfl
  | .filled first others _ => by
      rw [settleBlock, blockTokens, blockTokens, first.tokens_settle, itemTokens_settle others]
termination_by structural block => block

lemma entryTokens_settle : ∀ entries : List Entry,
    entryTokens (settleEntries entries) = entryTokens entries
  | [] => rfl
  | entry :: entries => by
      rw [settleEntries, entryTokens, entryTokens, entry.tokens_settle, entryTokens_settle entries]
termination_by structural entries => entries

lemma itemTokens_settle : ∀ items : List Item,
    itemTokens (settleItems items) = itemTokens items
  | [] => rfl
  | item :: items => by
      rw [settleItems, itemTokens, itemTokens, item.tokens_settle, itemTokens_settle items]
termination_by structural items => items

end

lemma eq_of_commaTokens {comma comma' : Bool} {rest rest' : List Token}
    (h : commaTokens comma ++ .punctuation .rightBrace :: rest
      = commaTokens comma' ++ .punctuation .rightBrace :: rest') :
    comma = comma' ∧ rest = rest' := by
  cases comma <;> cases comma' <;> simp_all [commaTokens]

mutual

/-- **Reading is unambiguous.**  A derivation is known by its phrase and its tokens, wherever these
    end. -/
theorem Node.eq_of_phrase : ∀ (node node' : Node) {rest rest' : List Token},
    node.phrase = node'.phrase → node.tokens ++ rest = node'.tokens ++ rest' →
      node = node' ∧ rest = rest'
  | .mk _ _ _ body, .mk _ _ _ body' => by
      intro hphrase htokens
      simp only [Node.phrase, Phrase.Node.mk.injEq] at hphrase
      obtain ⟨rfl, rfl, rfl, hbody⟩ := hphrase
      simp only [Node.tokens, enclosedTokens, List.cons_append, List.append_assoc,
        List.nil_append, List.cons.injEq, List.append_cancel_left_eq, true_and] at htokens
      obtain ⟨rfl, rfl⟩ := eq_of_bodyPhrase body body' hbody htokens
      exact ⟨rfl, rfl⟩
termination_by structural node => node

lemma Item.eq_of_phrase : ∀ (item item' : Item) {rest rest' : List Token},
    item.phrase = item'.phrase → item.tokens ++ rest = item'.tokens ++ rest' →
      item = item' ∧ rest = rest'
  | .field _, .field _ => by
      intro hphrase htokens
      cases hphrase
      exact ⟨rfl, by simpa [Item.tokens] using htokens⟩
  | .node node, .node node' => by
      intro hphrase htokens
      obtain ⟨rfl, rfl⟩ := node.eq_of_phrase node' (Phrase.Item.node.inj hphrase) htokens
      exact ⟨rfl, rfl⟩
  | .field _, .node _ => fun hphrase _ => nomatch hphrase
  | .node _, .field _ => fun hphrase _ => nomatch hphrase
termination_by structural item => item

lemma Entry.eq_of_phrase : ∀ (entry entry' : Entry) {rest rest' : List Token},
    entry.phrase = entry'.phrase → entry.tokens ++ rest = entry'.tokens ++ rest' →
      entry = entry' ∧ rest = rest'
  | .directive _, .directive _ => by
      intro hphrase htokens
      cases hphrase
      exact ⟨rfl, by simpa [Entry.tokens] using htokens⟩
  | .item item, .item item' => by
      intro hphrase htokens
      obtain ⟨rfl, rfl⟩ := item.eq_of_phrase item' (Phrase.Entry.item.inj hphrase) htokens
      exact ⟨rfl, rfl⟩
  | .properties items, .properties items' => by
      intro hphrase htokens
      simp only [Entry.tokens, enclosedTokens, List.cons_append, List.append_assoc,
        List.nil_append, List.cons.injEq, true_and] at htokens
      obtain ⟨rfl, rfl⟩ :=
        eq_of_blockPhrase items items' (Phrase.Entry.properties.inj hphrase) htokens
      exact ⟨rfl, rfl⟩
  | .directive _, .item _ => fun hphrase _ => nomatch hphrase
  | .directive _, .properties _ => fun hphrase _ => nomatch hphrase
  | .item _, .directive _ => fun hphrase _ => nomatch hphrase
  | .item _, .properties _ => fun hphrase _ => nomatch hphrase
  | .properties _, .directive _ => fun hphrase _ => nomatch hphrase
  | .properties _, .item _ => fun hphrase _ => nomatch hphrase
termination_by structural entry => entry

lemma eq_of_bodyPhrase : ∀ (body body' : Block Entry) {rest rest' : List Token},
    bodyPhrase body = bodyPhrase body' →
      bodyTokens body ++ .punctuation .rightBrace :: rest
        = bodyTokens body' ++ .punctuation .rightBrace :: rest' →
      body = body' ∧ rest = rest'
  | .empty, .empty => fun _ htokens => ⟨rfl, (List.cons.inj htokens).2⟩
  | .filled first others _, .filled first' others' _ => by
      intro hphrase htokens
      simp only [bodyPhrase, List.cons.injEq] at hphrase
      simp only [bodyTokens, separatedTokens, List.append_assoc] at htokens
      obtain ⟨rfl, hmore⟩ := first.eq_of_phrase first' hphrase.1 htokens
      obtain ⟨rfl, hcomma⟩ := eq_of_entryPhrases others others' hphrase.2 hmore
      obtain ⟨rfl, rfl⟩ := eq_of_commaTokens hcomma
      exact ⟨rfl, rfl⟩
  | .empty, .filled _ _ _ => fun hphrase _ => nomatch hphrase
  | .filled _ _ _, .empty => fun hphrase _ => nomatch hphrase
termination_by structural body => body

lemma eq_of_blockPhrase : ∀ (block block' : Block Item) {rest rest' : List Token},
    blockPhrase block = blockPhrase block' →
      blockTokens block ++ .punctuation .rightBrace :: rest
        = blockTokens block' ++ .punctuation .rightBrace :: rest' →
      block = block' ∧ rest = rest'
  | .empty, .empty => fun _ htokens => ⟨rfl, (List.cons.inj htokens).2⟩
  | .filled first others _, .filled first' others' _ => by
      intro hphrase htokens
      simp only [blockPhrase, List.cons.injEq] at hphrase
      simp only [blockTokens, separatedTokens, List.append_assoc] at htokens
      obtain ⟨rfl, hmore⟩ := first.eq_of_phrase first' hphrase.1 htokens
      obtain ⟨rfl, hcomma⟩ := eq_of_itemPhrases others others' hphrase.2 hmore
      obtain ⟨rfl, rfl⟩ := eq_of_commaTokens hcomma
      exact ⟨rfl, rfl⟩
  | .empty, .filled _ _ _ => fun hphrase _ => nomatch hphrase
  | .filled _ _ _, .empty => fun hphrase _ => nomatch hphrase
termination_by structural block => block

lemma eq_of_entryPhrases : ∀ (entries entries' : List Entry) {rest rest' : List Token},
    entryPhrases entries = entryPhrases entries' →
      (entryTokens entries).flatMap (.punctuation .comma :: ·) ++ rest
        = (entryTokens entries').flatMap (.punctuation .comma :: ·) ++ rest' →
      entries = entries' ∧ rest = rest'
  | [], [] => fun _ htokens => ⟨rfl, htokens⟩
  | entry :: entries, entry' :: entries' => by
      intro hphrase htokens
      simp only [entryPhrases, List.cons.injEq] at hphrase
      simp only [entryTokens, List.flatMap_cons, List.cons_append, List.append_assoc,
        List.cons.injEq, true_and] at htokens
      obtain ⟨rfl, hmore⟩ := entry.eq_of_phrase entry' hphrase.1 htokens
      obtain ⟨rfl, rfl⟩ := eq_of_entryPhrases entries entries' hphrase.2 hmore
      exact ⟨rfl, rfl⟩
  | [], _ :: _ => fun hphrase _ => nomatch hphrase
  | _ :: _, [] => fun hphrase _ => nomatch hphrase
termination_by structural entries => entries

lemma eq_of_itemPhrases : ∀ (items items' : List Item) {rest rest' : List Token},
    itemPhrases items = itemPhrases items' →
      (itemTokens items).flatMap (.punctuation .comma :: ·) ++ rest
        = (itemTokens items').flatMap (.punctuation .comma :: ·) ++ rest' →
      items = items' ∧ rest = rest'
  | [], [] => fun _ htokens => ⟨rfl, htokens⟩
  | item :: items, item' :: items' => by
      intro hphrase htokens
      simp only [itemPhrases, List.cons.injEq] at hphrase
      simp only [itemTokens, List.flatMap_cons, List.cons_append, List.append_assoc,
        List.cons.injEq, true_and] at htokens
      obtain ⟨rfl, hmore⟩ := item.eq_of_phrase item' hphrase.1 htokens
      obtain ⟨rfl, rfl⟩ := eq_of_itemPhrases items items' hphrase.2 hmore
      exact ⟨rfl, rfl⟩
  | [], _ :: _ => fun hphrase _ => nomatch hphrase
  | _ :: _, [] => fun hphrase _ => nomatch hphrase
termination_by structural items => items

end

end Derivation

/-! ## Acceptance -/

namespace Phrase

open Reader GraphRequest.Derivation

lemma value_endOfInput_iff {tokens rest : List Token} :
    (endOfInput tokens).value = some ((), rest) ↔ tokens = [] ∧ rest = [] := by
  cases tokens with
  | nil => exact ⟨fun h => ⟨rfl, (Prod.mk.inj (Option.some.inj h)).2.symm⟩, by rintro ⟨-, rfl⟩; rfl⟩
  | cons front tokens => exact ⟨fun h => (nomatch h), by simp⟩

/-- A request is a node with nothing after it. -/
lemma value_request_iff {tokens rest : List Token} {root : Node} :
    (request tokens).value = some (root, rest)
      ↔ (node (tokens.length + 1) tokens).value = some (root, []) ∧ rest = [] := by
  simp only [request, value_bind, value_pure, Option.bind_eq_some_iff, Prod.exists,
    Option.some.injEq, Prod.mk.injEq]
  constructor
  · rintro ⟨root, ahead, hnode, _, after, hend, rfl, rfl⟩
    obtain ⟨rfl, rfl⟩ := value_endOfInput_iff.mp hend
    exact ⟨hnode, rfl⟩
  · rintro ⟨hnode, rfl⟩
    exact ⟨root, [], hnode, (), [], rfl, rfl, rfl⟩

/-- A derivation of a text is found, settled. -/
lemma value_request_of_derives {derived : Derivation.Node} {text : String}
    (h : derived.Derives text) :
    (request (Token.ofText text)).value = some (derived.settle.phrase, []) := by
  have hread := derived.read _ [] (Nat.le_succ _)
  rw [List.append_nil] at hread
  rw [derives_iff.mp h]
  exact value_request_iff.mpr ⟨hread, rfl⟩

/-- What was found is derived. -/
lemma exists_derives_of_value {text : String} {root : Node} {rest : List Token}
    (h : (request (Token.ofText text)).value = some (root, rest)) :
    ∃ derived : Derivation.Node, derived.Derives text ∧ derived.phrase = root := by
  obtain ⟨used, hused, derived, rfl, rfl⟩ := node_sound _ _ _ _ (value_request_iff.mp h).1
  exact ⟨derived, derives_iff.mpr (by rw [hused, List.append_nil]), rfl⟩

/-- **Acceptance is derivability.**  A text is read exactly if the grammar derives it.  Its
    derivation is unique up to reading the word of a directive as a field, and what is read is the
    phrase of the derivation that has the directive. -/
theorem request_reads_derived (text : String) :
    ((request (Token.ofText text)).value.isSome
        ↔ ∃ derived : Derivation.Node, derived.Derives text)
      ∧ ∀ derived : Derivation.Node, derived.Derives text →
          derived.settle.Derives text
            ∧ (request (Token.ofText text)).value = some (derived.settle.phrase, [])
            ∧ ∀ other : Derivation.Node, other.Derives text ↔ other.settle = derived.settle := by
  refine ⟨⟨fun hread => ?_, fun ⟨derived, hderives⟩ => ?_⟩, fun derived hderives => ⟨?_, ?_, ?_⟩⟩
  · obtain ⟨⟨root, rest⟩, hread⟩ := Option.isSome_iff_exists.mp hread
    obtain ⟨derived, hderives, -⟩ := exists_derives_of_value hread
    exact ⟨derived, hderives⟩
  · rw [value_request_of_derives hderives]
    rfl
  · rw [derives_iff, derived.tokens_settle]
    exact derives_iff.mp hderives
  · exact value_request_of_derives hderives
  intro other
  constructor
  · intro hother
    have hphrase : other.settle.phrase = derived.settle.phrase := by
      have hread := value_request_of_derives hother
      rw [value_request_of_derives hderives] at hread
      simpa [eq_comm] using hread
    have htokens : other.settle.tokens ++ [] = derived.settle.tokens ++ [] := by
      rw [other.tokens_settle, derived.tokens_settle, ← derives_iff.mp hother,
        ← derives_iff.mp hderives]
    exact (other.settle.eq_of_phrase derived.settle hphrase htokens).1
  · intro hsettle
    rw [derives_iff, ← other.tokens_settle, hsettle, derived.tokens_settle]
    exact derives_iff.mp hderives

/-- A bare `labels` is derived as a field and read as the directive. -/
theorem request_reads_labels :
    (Derivation.Node.mk "Gene" [] none (.filled (.item (.field "labels")) [] true)).Derives
        "Gene() \x7b labels, \x7d"
      ∧ (request (Token.ofText "Gene() \x7b labels, \x7d")).value
        = some (.mk "Gene" [] none [.directive .labels], []) := by
  have hderives : (Derivation.Node.mk "Gene" [] none
      (.filled (.item (.field "labels")) [] true)).Derives "Gene() \x7b labels, \x7d" :=
    derives_iff.mpr (by decide +kernel)
  exact ⟨hderives, ((request_reads_derived _).2 _ hderives).2.1⟩

end Phrase

end GraphRequest
