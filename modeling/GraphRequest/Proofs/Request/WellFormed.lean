import GraphRequest.Proofs.Phrase.Acceptance
import GraphRequest.Proofs.Request.Registration

/-!
# Accepted requests are well formed

Nothing checks a finished tree.  What can be relied on is spread over reading, gathering and
registration, and is brought together here.

* **Gathering** hangs every node on the one above it and takes the edge out of the filters
  (`Request.linked_ofPhrase`).
* **Scanning** finds only names, numerals and strings without quotation marks, and they end up in
  the tree as they were found (`Request.lexical_ofPhrase`).
* **Registration** refuses missing edges, names taken twice and nodes that report nothing
  (`Request.register_eq_iff`).

`Request.wellFormed_of_ofText` is what they amount to.
-/

namespace GraphRequest

/-! ## Well-formed values, patterns and trees -/

/-- A value as it can be written. -/
def Value.Lexical : Value → Prop
  | .bound name => IsName name
  | .number digits => IsNumeral digits
  | .string text => '"' ∉ text.toList

/-- A pattern whose parts can all be written. -/
structure Pattern.Lexical (pattern : Pattern) : Prop where
  typeName : IsName pattern.typeName
  name : IsName pattern.name
  filters : ∀ param ∈ pattern.filters, IsName param.key ∧ param.value.Lexical
  fields : ∀ field ∈ pattern.fields, IsName field
  edge : ∀ edge, pattern.edge = some edge → '"' ∉ edge.toList

/-- A pattern that hangs on a node of a given name, by an edge that is no filter as well. -/
structure Pattern.HangsOn (pattern : Pattern) (parent : String) : Prop where
  parent : pattern.parent = some parent
  filters : ∀ param ∈ pattern.filters, param.key ≠ "relationship"

namespace Request

/-- **A well-formed tree.**

* `root_parent`, `root_edge` — the root hangs on nothing;
* `linked`, `edges` — every other node hangs on the node above, by an edge that is not empty;
* `names` — no two nodes share a name;
* `reports` — every node has a field or a child;
* `lexical` — all texts in the tree can be written. -/
structure WellFormed (request : Request) : Prop where
  root_parent : request.pattern.parent = none
  root_edge : request.pattern.edge = none
  linked : ∀ node ∈ request.nodes, ∀ child ∈ node.children,
    child.pattern.HangsOn node.pattern.name
  edges : ∀ node ∈ request.nodes, ∀ child ∈ node.children,
    ∃ edge, child.pattern.edge = some edge ∧ edge ≠ ""
  names : (request.nodes.map fun node => node.pattern.name).Nodup
  reports : ∀ node ∈ request.nodes, node.pattern.fields ≠ [] ∨ node.children ≠ []
  lexical : ∀ node ∈ request.nodes, node.pattern.Lexical

/-- No node of a well-formed tree is like another one, since it has a name of its own. -/
lemma WellFormed.nodup_nodes {request : Request} (h : request.WellFormed) : request.nodes.Nodup :=
  h.names.of_map _

/-! ## Gathering links the nodes -/

/-- That every child hangs on the node. -/
def Linked (node : Request) : Prop :=
  ∀ child ∈ node.children, child.pattern.HangsOn node.pattern.name

lemma hangsOn_ofPhrase (parent : String) (phrase : Phrase.Node) :
    (ofPhrase (some parent) phrase).pattern.HangsOn parent := by
  obtain ⟨typeName, params, nodeAlias, entries⟩ := phrase
  refine ⟨rfl, fun param hparam => ?_⟩
  have hedge := (List.mem_filter.mp hparam).2
  simpa [Phrase.edgeKey] using hedge

/-- That trees hang on a node and are linked inside. -/
structure LinkedBelow (parent : String) (requests : List Request) : Prop where
  hang : ∀ request ∈ requests, request.pattern.HangsOn parent
  linked : ∀ node ∈ nodesOf requests, node.Linked

lemma LinkedBelow.nil (parent : String) : LinkedBelow parent [] :=
  ⟨List.forall_mem_nil _, List.forall_mem_nil _⟩

lemma LinkedBelow.append {parent : String} {before after : List Request}
    (hbefore : LinkedBelow parent before) (hafter : LinkedBelow parent after) :
    LinkedBelow parent (before ++ after) where
  hang := List.forall_mem_append.mpr ⟨hbefore.hang, hafter.hang⟩
  linked := by
    rw [nodesOf_append]
    exact List.forall_mem_append.mpr ⟨hbefore.linked, hafter.linked⟩

mutual

/-- Gathering hangs every node on the one above. -/
theorem linked_ofPhrase : ∀ (phrase : Phrase.Node) (parent : Option String),
    ∀ node ∈ (ofPhrase parent phrase).nodes, node.Linked
  | .mk typeName params nodeAlias entries => by
      intro parent node hnode
      have hbelow := linked_ofEntries entries (nodeAlias.getD typeName)
      rw [ofPhrase] at hnode
      rcases mem_nodes.mp hnode with rfl | hnode
      · exact hbelow.hang
      · exact hbelow.linked node hnode
termination_by structural phrase => phrase

lemma linked_ofItem : ∀ (item : Phrase.Item) (parent : String),
    LinkedBelow parent (ofItem parent item)
  | .field _ => fun parent => LinkedBelow.nil parent
  | .node node => fun parent => by
      have hlinked := linked_ofPhrase node (some parent)
      exact ⟨by simpa [ofItem] using hangsOn_ofPhrase parent node, by simpa [ofItem] using hlinked⟩
termination_by structural item => item

lemma linked_ofItems : ∀ (items : List Phrase.Item) (parent : String),
    LinkedBelow parent (ofItems parent items)
  | [] => fun parent => LinkedBelow.nil parent
  | item :: items => fun parent => (linked_ofItem item parent).append (linked_ofItems items parent)
termination_by structural items => items

lemma linked_ofEntry : ∀ (entry : Phrase.Entry) (parent : String),
    LinkedBelow parent (ofEntry parent entry)
  | .directive _ => fun parent => LinkedBelow.nil parent
  | .item item => fun parent => linked_ofItem item parent
  | .properties items => fun parent => linked_ofItems items parent
termination_by structural entry => entry

lemma linked_ofEntries : ∀ (entries : List Phrase.Entry) (parent : String),
    LinkedBelow parent (ofEntries parent entries)
  | [] => fun parent => LinkedBelow.nil parent
  | entry :: entries => fun parent =>
      (linked_ofEntry entry parent).append (linked_ofEntries entries parent)
termination_by structural entries => entries

end

/-! ## Gathering keeps texts as they were found -/

/-- Tokens that scanning can find. -/
def AllProper (tokens : List Token) : Prop :=
  ∀ token ∈ tokens, token.Proper

lemma allProper_cons {token : Token} {tokens : List Token} :
    AllProper (token :: tokens) ↔ token.Proper ∧ AllProper tokens :=
  List.forall_mem_cons

lemma allProper_append {before after : List Token} :
    AllProper (before ++ after) ↔ AllProper before ∧ AllProper after :=
  List.forall_mem_append

/-- No quotation mark gets into an edge. -/
lemma quote_not_mem_raw {value : Value} (h : value.Lexical) : '"' ∉ value.raw.toList := by
  cases value with
  | bound name =>
      intro hmem
      have hname : '"' ∈ name.toList := by simpa [Value.raw, Value.placeholder] using hmem
      exact absurd (IsName.all h _ hname) (by decide)
  | number digits => exact fun hmem => absurd (h.2 _ hmem) (by decide)
  | string text => exact h

/-- A pattern can be written if its own texts and those of its parameters and fields can. -/
lemma lexical_ofPhrase_pattern {parent nodeAlias : Option String} {typeName : String}
    {params : List Parameter} {entries : List Phrase.Entry} (htype : IsName typeName)
    (halias : ∀ name, nodeAlias = some name → IsName name)
    (hparams : ∀ param ∈ params, IsName param.key ∧ param.value.Lexical)
    (hfields : ∀ field ∈ Phrase.entryFields entries, IsName field) :
    (Pattern.ofPhrase parent typeName params nodeAlias entries).Lexical where
  typeName := htype
  name := by
    cases nodeAlias with
    | none => exact htype
    | some name => exact halias name rfl
  filters param hparam := hparams param (List.mem_filter.mp hparam).1
  fields := hfields
  edge edge hedge := by
    obtain ⟨param, hlast, rfl⟩ := Option.map_eq_some_iff.mp hedge
    have hparam := (List.mem_filter.mp (List.mem_of_getLast? hlast)).1
    exact quote_not_mem_raw (hparams param hparam).2

/-- That fields and trees can be written. -/
structure LexicalBelow (fields : List String) (requests : List Request) : Prop where
  fields : ∀ field ∈ fields, IsName field
  nodes : ∀ node ∈ nodesOf requests, node.pattern.Lexical

lemma LexicalBelow.nil : LexicalBelow [] [] :=
  ⟨nofun, nofun⟩

lemma LexicalBelow.append {fields fields' : List String} {requests requests' : List Request}
    (h : LexicalBelow fields requests) (h' : LexicalBelow fields' requests') :
    LexicalBelow (fields ++ fields') (requests ++ requests') where
  fields := List.forall_mem_append.mpr ⟨h.fields, h'.fields⟩
  nodes := by
    rw [nodesOf_append]
    exact List.forall_mem_append.mpr ⟨h.nodes, h'.nodes⟩

lemma itemFields_cons (item : Phrase.Item) (items : List Phrase.Item) :
    Phrase.itemFields (item :: items) = Phrase.itemFields [item] ++ Phrase.itemFields items := by
  cases item <;> rfl

lemma entryFields_cons (entry : Phrase.Entry) (entries : List Phrase.Entry) :
    Phrase.entryFields (entry :: entries)
      = Phrase.entryFields [entry] ++ Phrase.entryFields entries := by
  cases entry <;> simp [Phrase.entryFields]

section

open GraphRequest.Derivation Stretch

lemma allProper_of_separated {part : List Token} {parts : List (List Token)}
    (h : AllProper (separatedTokens part parts)) :
    AllProper part ∧ ∀ other ∈ parts, AllProper other := by
  rw [separatedTokens, allProper_append] at h
  refine ⟨h.1, fun other hother token htoken => h.2 token ?_⟩
  exact List.mem_flatMap.mpr ⟨other, hother, List.mem_cons_of_mem _ htoken⟩

lemma allProper_of_enclosed {opening closing : Punctuation} {tokens : List Token}
    (h : AllProper (enclosedTokens opening closing tokens)) : AllProper tokens :=
  fun token htoken => h token (List.mem_cons_of_mem _ (List.mem_append_left _ htoken))

lemma lexical_param {parameter : Parameter} (h : AllProper (paramTokens parameter)) :
    IsName parameter.key ∧ parameter.value.Lexical := by
  obtain ⟨key, value⟩ := parameter
  refine ⟨h (.ident key) (by simp [paramTokens]), ?_⟩
  have hvalue := h (valueToken value) (by simp [paramTokens])
  cases value <;> exact hvalue

lemma lexical_params {params : List Parameter} (h : AllProper (paramsTokens params)) :
    ∀ param ∈ params, IsName param.key ∧ param.value.Lexical := by
  have hinside := allProper_of_enclosed h
  cases params with
  | nil => exact nofun
  | cons first others =>
      obtain ⟨hfirst, hothers⟩ := allProper_of_separated hinside
      refine List.forall_mem_cons.mpr ⟨lexical_param hfirst, fun param hparam => ?_⟩
      exact lexical_param (hothers _ (List.mem_map_of_mem hparam))

lemma lexical_alias {nodeAlias : Option String} (h : AllProper (aliasTokens nodeAlias)) :
    ∀ name, nodeAlias = some name → IsName name := by
  rintro name rfl
  exact h (.ident name) (by simp [aliasTokens])

mutual

/-- The tree of a derivation is made of the texts of its tokens. -/
theorem lexical_ofPhrase : ∀ (derived : Derivation.Node) (parent : Option String),
    AllProper derived.tokens → ∀ node ∈ (ofPhrase parent derived.phrase).nodes, node.pattern.Lexical
  | .mk typeName params nodeAlias body => by
      intro parent h node hnode
      rw [Derivation.Node.tokens, allProper_cons, allProper_append, allProper_append] at h
      obtain ⟨htype, hparams, halias, hbody⟩ := h
      have hbelow := lexical_ofBody body (nodeAlias.getD typeName) (allProper_of_enclosed hbody)
      rw [Derivation.Node.phrase, ofPhrase] at hnode
      rcases mem_nodes.mp hnode with rfl | hnode
      · exact lexical_ofPhrase_pattern htype (lexical_alias halias) (lexical_params hparams)
          hbelow.fields
      · exact hbelow.nodes node hnode
termination_by structural derived => derived

lemma lexical_ofItem : ∀ (item : Derivation.Item) (parent : String), AllProper item.tokens →
    LexicalBelow (Phrase.itemFields [item.phrase]) (ofItem parent item.phrase)
  | .field name => by
      intro parent h
      have hname : IsName name := h (.ident name) (by simp [Derivation.Item.tokens])
      exact ⟨by simpa [Derivation.Item.phrase, Phrase.itemFields] using hname, nofun⟩
  | .node node => by
      intro parent h
      have hnode := lexical_ofPhrase node (some parent) h
      exact ⟨nofun, by simpa [Derivation.Item.phrase, ofItem] using hnode⟩
termination_by structural item => item

lemma lexical_ofEntry : ∀ (entry : Derivation.Entry) (parent : String), AllProper entry.tokens →
    LexicalBelow (Phrase.entryFields [entry.phrase]) (ofEntry parent entry.phrase)
  | .directive _ => fun _ _ => LexicalBelow.nil
  | .item item => by
      intro parent h
      have hitem := lexical_ofItem item parent h
      simpa [Derivation.Entry.phrase, Phrase.entryFields, ofEntry] using hitem
  | .properties items => by
      intro parent h
      rw [Derivation.Entry.tokens, allProper_cons] at h
      have hblock := lexical_ofBlock items parent (allProper_of_enclosed h.2)
      simpa [Derivation.Entry.phrase, Phrase.entryFields, ofEntry] using hblock
termination_by structural entry => entry

lemma lexical_ofBody : ∀ (body : Block Entry) (parent : String), AllProper (bodyTokens body) →
    LexicalBelow (Phrase.entryFields (bodyPhrase body)) (ofEntries parent (bodyPhrase body))
  | .empty => fun _ _ => LexicalBelow.nil
  | .filled first others comma => by
      intro parent h
      obtain ⟨hfirst, hothers⟩ := allProper_of_separated (allProper_append.mp h).1
      rw [bodyPhrase, entryFields_cons, ofEntries]
      exact (lexical_ofEntry first parent hfirst).append (lexical_ofEntries others parent hothers)
termination_by structural body => body

lemma lexical_ofBlock : ∀ (block : Block Item) (parent : String), AllProper (blockTokens block) →
    LexicalBelow (Phrase.itemFields (blockPhrase block)) (ofItems parent (blockPhrase block))
  | .empty => fun _ _ => LexicalBelow.nil
  | .filled first others comma => by
      intro parent h
      obtain ⟨hfirst, hothers⟩ := allProper_of_separated (allProper_append.mp h).1
      rw [blockPhrase, itemFields_cons, ofItems]
      exact (lexical_ofItem first parent hfirst).append (lexical_ofItems others parent hothers)
termination_by structural block => block

lemma lexical_ofEntries : ∀ (entries : List Entry) (parent : String),
    (∀ tokens ∈ entryTokens entries, AllProper tokens) →
      LexicalBelow (Phrase.entryFields (entryPhrases entries))
        (ofEntries parent (entryPhrases entries))
  | [] => fun _ _ => LexicalBelow.nil
  | entry :: entries => by
      intro parent h
      rw [entryTokens, List.forall_mem_cons] at h
      rw [entryPhrases, entryFields_cons, ofEntries]
      exact (lexical_ofEntry entry parent h.1).append (lexical_ofEntries entries parent h.2)
termination_by structural entries => entries

lemma lexical_ofItems : ∀ (items : List Item) (parent : String),
    (∀ tokens ∈ itemTokens items, AllProper tokens) →
      LexicalBelow (Phrase.itemFields (itemPhrases items)) (ofItems parent (itemPhrases items))
  | [] => fun _ _ => LexicalBelow.nil
  | item :: items => by
      intro parent h
      rw [itemTokens, List.forall_mem_cons] at h
      rw [itemPhrases, itemFields_cons, ofItems]
      exact (lexical_ofItem item parent h.1).append (lexical_ofItems items parent h.2)
termination_by structural items => items

end

end

/-! ## Accepted trees -/

lemma root_ofPhrase (phrase : Phrase.Node) :
    (ofPhrase none phrase).pattern.parent = none ∧ (ofPhrase none phrase).pattern.edge = none := by
  obtain ⟨typeName, params, nodeAlias, entries⟩ := phrase
  exact ⟨rfl, by simp [ofPhrase, Pattern.ofPhrase]⟩

lemma exists_edge {pattern : Pattern} {parent : String} (hhangs : pattern.HangsOn parent)
    (h : pattern.lacksEdge = false) : ∃ edge, pattern.edge = some edge ∧ edge ≠ "" := by
  cases hedge : pattern.edge with
  | none => simp [Pattern.lacksEdge, hedge, Pattern.isRoot, hhangs.parent] at h
  | some edge =>
      refine ⟨edge, rfl, ?_⟩
      rintro rfl
      simp [Pattern.lacksEdge, hedge] at h

/-- That some text is accepted as this request. -/
def Accepted (request : Request) : Prop :=
  ∃ text, (ofText text).2 = .ok request

lemma Accepted.wellFormed {request : Request} (h : request.Accepted) : request.WellFormed := by
  obtain ⟨text, hok⟩ := h
  obtain ⟨phrase, rest, hread, rfl, hregistrable, hnames⟩ := ofText_eq_ok_iff.mp hok
  obtain ⟨derived, hderives, rfl⟩ := Phrase.exists_derives_of_value hread
  have hproper : AllProper derived.tokens := by
    rw [← Derivation.derives_iff.mp hderives]
    exact fun token htoken => Token.proper_of_mem_ofChars htoken
  have hlinked := linked_ofPhrase derived.phrase none
  exact
    { root_parent := (root_ofPhrase derived.phrase).1
      root_edge := (root_ofPhrase derived.phrase).2
      linked := hlinked
      edges := fun node hnode child hchild => exists_edge (hlinked node hnode child hchild)
        (hregistrable child (mem_nodes_of_mem_children hnode hchild)).1
      names := hnames
      reports := fun node hnode => (hregistrable node hnode).2
      lexical := lexical_ofPhrase derived none hproper }

/-- **Accepted requests are well formed.** -/
theorem wellFormed_of_ofText {text : String} {request : Request}
    (h : (ofText text).2 = .ok request) : request.WellFormed :=
  Accepted.wellFormed ⟨text, h⟩

/-- A gene with its traits is accepted. -/
lemma ofText_gene_with_traits :
    (ofText
        "Gene() \x7b name, Trait(relationship: \":has\") as t \x7b relationships, p \x7d \x7d").2
      = .ok ⟨⟨"Gene", "Gene", [], none, false, false, false, ["name"], none⟩,
        [⟨⟨"Trait", "t", [], some ":has", false, true, false, ["p"], some "Gene"⟩, []⟩]⟩ := by
  have htokens : Token.ofText
      "Gene() \x7b name, Trait(relationship: \":has\") as t \x7b relationships, p \x7d \x7d"
      = [.ident "Gene", .punctuation .leftParen, .punctuation .rightParen, .punctuation .leftBrace,
        .ident "name", .punctuation .comma, .ident "Trait", .punctuation .leftParen,
        .ident "relationship", .punctuation .colon, .string ":has", .punctuation .rightParen,
        .ident "as", .ident "t", .punctuation .leftBrace, .ident "relationships",
        .punctuation .comma, .ident "p", .punctuation .rightBrace, .punctuation .rightBrace] := by
    decide +kernel
  rw [ofText, htokens]
  rfl

/-- Its tree is well formed. -/
theorem wellFormed_gene_with_traits :
    WellFormed ⟨⟨"Gene", "Gene", [], none, false, false, false, ["name"], none⟩,
      [⟨⟨"Trait", "t", [], some ":has", false, true, false, ["p"], some "Gene"⟩, []⟩]⟩ :=
  wellFormed_of_ofText ofText_gene_with_traits

/-- So is a gene with its traits and its sites. -/
lemma ofText_gene_with_traits_and_sites :
    (ofText ("Gene() \x7b name, Trait(relationship: \":has\") as t \x7b relationships, p \x7d, "
        ++ "Site(relationship: \":at\") as s \x7b q \x7d \x7d")).2
      = .ok ⟨⟨"Gene", "Gene", [], none, false, false, false, ["name"], none⟩,
        [⟨⟨"Trait", "t", [], some ":has", false, true, false, ["p"], some "Gene"⟩, []⟩,
          ⟨⟨"Site", "s", [], some ":at", false, false, false, ["q"], some "Gene"⟩, []⟩]⟩ := by
  have htokens : Token.ofText
      ("Gene() \x7b name, Trait(relationship: \":has\") as t \x7b relationships, p \x7d, "
        ++ "Site(relationship: \":at\") as s \x7b q \x7d \x7d")
      = [.ident "Gene", .punctuation .leftParen, .punctuation .rightParen, .punctuation .leftBrace,
        .ident "name", .punctuation .comma, .ident "Trait", .punctuation .leftParen,
        .ident "relationship", .punctuation .colon, .string ":has", .punctuation .rightParen,
        .ident "as", .ident "t", .punctuation .leftBrace, .ident "relationships",
        .punctuation .comma, .ident "p", .punctuation .rightBrace, .punctuation .comma,
        .ident "Site", .punctuation .leftParen, .ident "relationship", .punctuation .colon,
        .string ":at", .punctuation .rightParen, .ident "as", .ident "s", .punctuation .leftBrace,
        .ident "q", .punctuation .rightBrace, .punctuation .rightBrace] := by
    decide +kernel
  rw [ofText, htokens]
  rfl

end Request

end GraphRequest
