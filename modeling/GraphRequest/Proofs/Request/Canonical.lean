import GraphRequest.Proofs.Request.WellFormed
import GraphRequest.Proofs.Text.Parting

/-!
# Every well-formed tree can be written

A tree is written canonically as

```text
TYPE(k: v, ..., relationship: "EDGE") as NAME { directives, properties { fields, children } }
```

with the parameter `relationship` on the nodes that hang on an edge, and with the directives that
are set.  Nothing in the text is escaped, and names may be words of the grammar.  That reading
it gives back the tree is shown along the stages of reading.

* **Deriving** — `Request.takes_derivation`: the grammar derives the canonical text, by a
  derivation with the same nodes, fields and directives (`Request.derivation`).  A derivation is
  all that acceptance asks for (`Phrase.value_request_of_derives`).
* **Gathering** — `Request.ofPhrase_derivation`: the edge is taken out of the parameters again, and
  every node is hung on the one above it.
* **Registration** — well-formedness has what `Request.ofText_eq_ok_iff` asks of every node.

As accepted trees are well formed, well-formed trees are exactly those that can be read back:
`Request.ofText_canonical_iff`.
-/

namespace GraphRequest

/-! ## The canonical text -/

/-- A value as it is written. -/
def Value.written : Value → String
  | .bound name => "<" ++ name ++ ">"
  | .number digits => digits
  | .string text => "\"" ++ text ++ "\""

/-- A parameter as it is written. -/
def Parameter.written (parameter : Parameter) : String :=
  parameter.key ++ ": " ++ parameter.value.written

namespace Pattern

variable (pattern : Pattern)

/-- The parameters a node is written with: its filters and then its edge, if it has one. -/
def params : List Parameter :=
  pattern.filters ++ pattern.edge.toList.map fun edge => ⟨Phrase.edgeKey, .string edge⟩

/-- The directives a node is written with. -/
def directives : List Directive :=
  [Directive.labels, .relationships, .graph].filter pattern.asksFor

end Pattern

namespace Request

/-- Texts between braces, with commas between them. -/
def braced (texts : List String) : String :=
  "\x7b " ++ ", ".intercalate texts ++ " \x7d"

mutual

/-- The canonical text of a tree. -/
def canonical : Request → String
  | ⟨pattern, children⟩ =>
    pattern.typeName ++ "(" ++ ", ".intercalate (pattern.params.map Parameter.written) ++ ") as "
      ++ pattern.name ++ " "
      ++ braced (pattern.directives.map Directive.word
        ++ ["properties " ++ braced (pattern.fields ++ canonicals children)])
termination_by structural request => request

/-- The canonical texts of several trees. -/
def canonicals : List Request → List String
  | [] => []
  | request :: requests => canonical request :: canonicals requests
termination_by structural requests => requests

end

end Request

/-! ## Texts of stretches -/

namespace Stretch

lemma nameEnds_mark (punctuation : Punctuation) (text : List Char) :
    NameEnds (punctuation.char :: text) := by
  rintro c ⟨⟩
  cases punctuation <;> rfl

/-- That a kind of stretch can have a given text, in front of what does not go on with a name. -/
def Takes (part : Stretch) (text : List Char) : Prop :=
  ∀ after, NameEnds after → part (text ++ after) after

/-- Blanks as they are left in canonical text: none or one. -/
def gap (wide : Bool) : List Char :=
  if wide then [' '] else []

lemma blanks_gap (wide : Bool) (after : List Char) : blanks (gap wide ++ after) after := by
  refine star_oneOf_iff.mpr ⟨gap wide, rfl, ?_⟩
  cases wide with
  | true => exact List.forall_mem_singleton.mpr rfl
  | false => exact nofun

lemma nameEnds_gap {text : List Char} (h : NameEnds text) (wide : Bool) :
    NameEnds (gap wide ++ text) := by
  cases wide with
  | true =>
      rintro c ⟨⟩
      rfl
  | false => exact h

section

variable {front back : Stretch} {text more : List Char}

lemma Takes.spaced (hfront : front.Takes text) (hback : back.Takes more) (wide : Bool)
    (hmeet : NameEnds (gap wide ++ more)) :
    (front.spaced back).Takes (text ++ (gap wide ++ more)) := by
  intro after hafter
  refine ⟨gap wide ++ more ++ after, ?_, more ++ after, ?_, hback after hafter⟩
  · rw [List.append_assoc]
    exact hfront _ (hmeet.append hafter)
  · rw [List.append_assoc]
    exact blanks_gap wide _

/-- After a mark anything may follow. -/
lemma Takes.after_mark (hback : back.Takes more) (wide : Bool) (punctuation : Punctuation) :
    ((mark punctuation).spaced back).Takes (punctuation.char :: (gap wide ++ more)) := by
  intro after hafter
  refine ⟨gap wide ++ more ++ after, rfl, more ++ after, ?_, hback after hafter⟩
  rw [List.append_assoc]
  exact blanks_gap wide _

lemma takes_mark (punctuation : Punctuation) : (mark punctuation).Takes [punctuation.char] :=
  fun _ _ => rfl

lemma takes_nothing : nothing.Takes [] :=
  fun _ _ => rfl

lemma Takes.enclosed (hpart : front.Takes text) (wide : Bool) (opening closing : Punctuation) :
    (enclosed opening closing front).Takes
      (opening.char :: (gap wide ++ (text ++ (gap wide ++ [closing.char])))) :=
  (hpart.spaced (takes_mark closing) wide (nameEnds_gap (nameEnds_mark closing []) wide)).after_mark
    wide opening

end

lemma takes_braced {part : Stretch} {texts : List String}
    (h : part.Takes (", ".intercalate texts).toList) :
    (enclosed .leftBrace .rightBrace part).Takes (Request.braced texts).toList := by
  simpa [Request.braced, gap, Punctuation.char] using h.enclosed true .leftBrace .rightBrace

lemma takes_ident {name : String} (h : IsName name) : (ident name).Takes name.toList :=
  fun _ _ => ident_iff.mpr ⟨h, rfl⟩

lemma takes_keyword (word : String) : (keyword word).Takes word.toList :=
  fun after hafter => ⟨after, rfl, rfl, hafter⟩

lemma takes_literal (word : String) : (literal word).Takes word.toList :=
  fun _ _ => rfl

lemma takes_value {value : Value} (h : value.Lexical) :
    (Stretch.value value).Takes value.written.toList := by
  intro after _
  cases value with
  | bound name =>
      refine ⟨name.toList ++ '>' :: after, ?_, '>' :: after, ident_iff.mpr ⟨h, rfl⟩, rfl⟩
      simp [literal, Value.written]
  | number digits => exact number_iff.mpr ⟨h, rfl⟩
  | string text =>
      refine ⟨text.toList ++ '"' :: after, ?_, '"' :: after, ⟨?_, rfl⟩, rfl⟩
      · simp [literal, Value.written]
      · refine star_oneOf_iff.mpr ⟨text.toList, rfl, fun c hc => ?_⟩
        simpa using fun hquote : c = '"' => h (hquote ▸ hc)

lemma takes_param {parameter : Parameter}
    (h : IsName parameter.key ∧ parameter.value.Lexical) :
    (param parameter).Takes parameter.written.toList := by
  have hvalue := (takes_value h.2).after_mark true .colon
  have hparam := (takes_ident h.1).spaced hvalue false (nameEnds_mark .colon _)
  rw [param]
  simpa [Parameter.written, gap, Punctuation.char] using hparam

/-! ### Parts with commas between them -/

/-- That parts have texts, one by one. -/
abbrev AllTake (parts : List Stretch) (texts : List String) : Prop :=
  List.Forall₂ (fun part text => part.Takes text.toList) parts texts

lemma takes_rounds {parts : List Stretch} {texts : List String} (h : AllTake parts texts) :
    (rounds parts).Takes (texts.flatMap fun text => ", ".toList ++ text.toList) ∧
      NameEnds (texts.flatMap fun text => ", ".toList ++ text.toList) := by
  induction h with
  | nil => exact ⟨takes_nothing, nofun⟩
  | cons hpart _ ih =>
      obtain ⟨hrounds, hends⟩ := ih
      exact ⟨(hpart.spaced hrounds false hends).after_mark true .comma, nameEnds_mark .comma _⟩

lemma takes_separated {part : Stretch} {parts : List Stretch} {texts : List String}
    (h : AllTake (part :: parts) texts) :
    (separated part parts).Takes (", ".intercalate texts).toList := by
  cases h with
  | cons hpart hparts =>
      obtain ⟨hrounds, hends⟩ := takes_rounds hparts
      rw [String.toList_intercalate, List.map_cons, intercalate_cons, List.flatMap_map]
      exact hpart.spaced hrounds false hends

lemma takes_separatedLoosely {part : Stretch} {parts : List Stretch} {texts : List String}
    (h : AllTake (part :: parts) texts) :
    (separatedLoosely part parts false).Takes (", ".intercalate texts).toList := by
  have hloose := (takes_separated h).spaced takes_nothing false nofun
  rwa [gap, if_neg (by simp), List.append_nil, List.append_nil] at hloose

lemma takes_params {parameters : List Parameter}
    (h : ∀ parameter ∈ parameters, IsName parameter.key ∧ parameter.value.Lexical) :
    (params parameters).Takes
      ('(' :: ((", ".intercalate (parameters.map Parameter.written)).toList ++ [')'])) := by
  have hall : AllTake (parameters.map param) (parameters.map Parameter.written) :=
    List.forall₂_map_left_iff.mpr (List.forall₂_map_right_iff.mpr
      (List.forall₂_same.mpr fun parameter hmem => takes_param (h parameter hmem)))
  cases parameters with
  | nil => exact takes_nothing.enclosed false .leftParen .rightParen
  | cons first others => exact (takes_separated hall).enclosed false .leftParen .rightParen

lemma takes_nodeAlias {name : String} (h : IsName name) :
    (nodeAlias name).Takes ("as ".toList ++ name.toList) :=
  (takes_keyword "as").spaced (takes_ident h) true (by rintro c ⟨⟩; rfl)

end Stretch

/-! ## The derivation of a tree -/

namespace Derivation

open Stretch

/-- What stands between two braces, given part by part and without a comma after the last. -/
def Block.listed {α : Type} : List α → Block α
  | [] => .empty
  | first :: rest => .filled first rest false

lemma takes_body {entries : List Entry} {texts : List String}
    (h : AllTake (entryStretches entries) texts) :
    (bodyStretch (.listed entries)).Takes (", ".intercalate texts).toList := by
  cases entries with
  | nil =>
      cases h
      exact takes_nothing
  | cons entry entries => exact takes_separatedLoosely h

lemma takes_block {items : List Item} {texts : List String}
    (h : AllTake (itemStretches items) texts) :
    (blockStretch (.listed items)).Takes (", ".intercalate texts).toList := by
  cases items with
  | nil =>
      cases h
      exact takes_nothing
  | cons item items => exact takes_separatedLoosely h

lemma takes_properties {items : List Item} {texts : List String}
    (h : AllTake (itemStretches items) texts) :
    AllTake (entryStretches [.properties (.listed items)])
      ["properties " ++ Request.braced texts] := by
  have hblock := (takes_literal "properties").spaced (takes_braced (takes_block h)) true
    (by rintro c ⟨⟩; rfl)
  refine .cons ?_ .nil
  simpa [Entry.stretch, gap] using hblock

lemma takes_directives (directives : List Directive) {entries : List Entry} {texts : List String}
    (h : AllTake (entryStretches entries) texts) :
    AllTake (entryStretches (directives.map .directive ++ entries))
      (directives.map Directive.word ++ texts) := by
  induction directives with
  | nil => exact h
  | cons directive directives ih => exact .cons (takes_keyword directive.word) ih

lemma takes_fields {fields : List String} (hfields : ∀ field ∈ fields, IsName field)
    {items : List Item} {texts : List String} (h : AllTake (itemStretches items) texts) :
    AllTake (itemStretches (fields.map .field ++ items)) (fields ++ texts) := by
  induction fields with
  | nil => exact h
  | cons field fields ih =>
      obtain ⟨hfield, hfields⟩ := List.forall_mem_cons.mp hfields
      exact .cons (takes_ident hfield) (ih hfields)

end Derivation

namespace Request

open Stretch

mutual

/-- The derivation of the canonical text of a tree. -/
def derivation : Request → Derivation.Node
  | ⟨pattern, children⟩ =>
    .mk pattern.typeName pattern.params (some pattern.name) <| .listed <|
      pattern.directives.map .directive
        ++ [.properties (.listed (pattern.fields.map .field ++ derivations children))]
termination_by structural request => request

/-- The derivations of the canonical texts of several trees. -/
def derivations : List Request → List Derivation.Item
  | [] => []
  | request :: requests => .node request.derivation :: derivations requests
termination_by structural requests => requests

end

lemma isName_edgeKey : IsName Phrase.edgeKey :=
  ⟨'r', "elationship".toList, by decide, rfl, List.all_eq_true.mp (by decide)⟩

lemma lexical_params_written {pattern : Pattern} (h : pattern.Lexical) :
    ∀ param ∈ pattern.params, IsName param.key ∧ param.value.Lexical := by
  refine List.forall_mem_append.mpr ⟨h.filters, List.forall_mem_map.mpr fun edge hedge => ?_⟩
  exact ⟨isName_edgeKey, h.edge edge (Option.mem_toList.mp hedge)⟩

mutual

/-- **The grammar derives the canonical text.** -/
theorem takes_derivation : ∀ request : Request, (∀ node ∈ request.nodes, node.pattern.Lexical) →
    request.derivation.stretch.Takes request.canonical.toList
  | ⟨pattern, children⟩ => by
      intro h
      rw [nodes_eq, List.forall_mem_cons] at h
      obtain ⟨hpattern, hbelow⟩ := h
      have hitems := Derivation.takes_fields hpattern.fields (takes_derivations children hbelow)
      have hentries := Derivation.takes_directives pattern.directives
        (Derivation.takes_properties hitems)
      have hbody := takes_braced (Derivation.takes_body hentries)
      have halias := (takes_nodeAlias hpattern.name).spaced hbody true (by rintro c ⟨⟩; rfl)
      have hparams := (takes_params (lexical_params_written hpattern)).spaced halias true
        (by rintro c ⟨⟩; rfl)
      have hnode := (takes_ident hpattern.typeName).spaced hparams false
        (nameEnds_mark .leftParen _)
      rw [derivation, Derivation.Node.stretch]
      simpa [canonical, gap, Stretch.optional] using hnode
termination_by structural request => request

lemma takes_derivations : ∀ requests : List Request,
    (∀ node ∈ nodesOf requests, node.pattern.Lexical) →
      AllTake (Derivation.itemStretches (derivations requests)) (canonicals requests)
  | [] => fun _ => .nil
  | request :: requests => fun h =>
      have ⟨hrequest, hrequests⟩ := List.forall_mem_append.mp h
      .cons (takes_derivation request hrequest) (takes_derivations requests hrequests)
termination_by structural requests => requests

end

end Request

/-! ## The phrase of the derivation -/

namespace Derivation

lemma phrase_settleBody_listed (entries : List Entry) :
    bodyPhrase (settleBody (.listed entries)) = entries.map fun entry => entry.settle.phrase := by
  have hlist : ∀ entries : List Entry,
      entryPhrases (settleEntries entries) = entries.map fun entry => entry.settle.phrase := by
    intro entries
    induction entries with
    | nil => rfl
    | cons entry entries ih => rw [settleEntries, entryPhrases, ih, List.map_cons]
  cases entries with
  | nil => rfl
  | cons entry entries => exact hlist (entry :: entries)

lemma phrase_settleBlock_listed (items : List Item) :
    blockPhrase (settleBlock (.listed items)) = items.map fun item => item.settle.phrase := by
  have hlist : ∀ items : List Item,
      itemPhrases (settleItems items) = items.map fun item => item.settle.phrase := by
    intro items
    induction items with
    | nil => rfl
    | cons item items ih => rw [settleItems, itemPhrases, ih, List.map_cons]
  cases items with
  | nil => rfl
  | cons item items => exact hlist (item :: items)

end Derivation

namespace Request

/-- The items a node is written with in its block. -/
def items (fields : List String) (children : List Request) : List Phrase.Item :=
  fields.map .field ++ (children.map fun child => child.derivation.settle.phrase).map .node

lemma derivations_eq_map (children : List Request) :
    derivations children = children.map fun child => .node child.derivation := by
  induction children with
  | nil => rfl
  | cons child children ih => rw [derivations, ih, List.map_cons]

/-- The words of directives stand among the entries and the names of fields in the block, so
    settling changes neither. -/
lemma phrase_settle_derivation (pattern : Pattern) (children : List Request) :
    (derivation ⟨pattern, children⟩).settle.phrase
      = .mk pattern.typeName pattern.params (some pattern.name)
        (pattern.directives.map .directive ++ [.properties (items pattern.fields children)]) := by
  simp only [derivation, Derivation.Node.settle, Derivation.Node.phrase,
    Derivation.phrase_settleBody_listed, List.map_append, List.map_map, List.map_singleton,
    Derivation.Entry.settle, Derivation.Entry.phrase, Derivation.phrase_settleBlock_listed,
    derivations_eq_map, items]
  rfl

end Request

/-! ## Gathering gives the tree back -/

namespace Phrase

lemma itemFields_written (fields : List String) (nodes : List Node) :
    itemFields (fields.map .field ++ nodes.map .node) = fields := by
  have hnodes : itemFields (nodes.map .node) = [] := by
    induction nodes with
    | nil => rfl
    | cons node nodes ih => exact ih
  induction fields with
  | nil => exact hnodes
  | cons field fields ih => exact congrArg (field :: ·) ih

lemma entryFields_written (directives : List Directive) (items : List Item) :
    entryFields (directives.map .directive ++ [.properties items]) = itemFields items := by
  induction directives with
  | nil => exact List.append_nil _
  | cons directive directives ih => exact ih

lemma sets_written (directive : Directive) (directives : List Directive) (items : List Item) :
    sets directive (directives.map .directive ++ [.properties items])
      = directives.contains directive := by
  induction directives with
  | nil => rfl
  | cons other directives ih =>
      rw [List.map_cons, List.cons_append, sets, ih, List.contains_cons, BEq.comm]

end Phrase

namespace Pattern

lemma contains_directives (pattern : Pattern) (directive : Directive) :
    pattern.directives.contains directive = pattern.asksFor directive := by
  have hmem : directive ∈ pattern.directives ↔ pattern.asksFor directive = true := by
    rw [directives, List.mem_filter]
    cases directive <;> simp
  rw [Bool.eq_iff_iff, List.contains_iff_mem, hmem]

/-- That a pattern hangs where it is written: on nothing, or on the node above. -/
def HangsBelow (pattern : Pattern) : Option String → Prop
  | none => pattern.parent = none ∧ pattern.edge = none
  | some parent => pattern.HangsOn parent

/-- **The edge is taken out of the parameters again**, and the rest of a pattern is read off its
    entries. -/
lemma ofPhrase_written {pattern : Pattern} {parent : Option String} (h : pattern.HangsBelow parent)
    {items : List Phrase.Item} (hfields : Phrase.itemFields items = pattern.fields) :
    Pattern.ofPhrase parent pattern.typeName pattern.params (some pattern.name)
      (pattern.directives.map .directive ++ [.properties items]) = pattern := by
  obtain ⟨typeName, name, filters, edge, labels, relationships, graph, fields, above⟩ := pattern
  simp only [ofPhrase, Phrase.entryFields_written, hfields, Phrase.sets_written,
    contains_directives, asksFor, Option.getD_some, params]
  cases parent with
  | none =>
      obtain ⟨rfl, rfl⟩ := h
      simp
  | some parent =>
      obtain ⟨rfl, hfilters⟩ := h
      have hother : ∀ param ∈ filters, (param.key == Phrase.edgeKey) = false := fun param hparam =>
        beq_false_of_ne (hfilters param hparam)
      have hkept : filters.filter (fun param => !(param.key == Phrase.edgeKey)) = filters :=
        List.filter_eq_self.mpr fun param hparam => by simp [hother param hparam]
      have hedge : filters.filter (fun param => param.key == Phrase.edgeKey) = [] :=
        List.filter_eq_nil_iff.mpr fun param hparam => by simp [hother param hparam]
      cases edge <;> simp [hkept, hedge, Value.raw]

end Pattern

namespace Request

lemma ofItems_written (parent : String) (fields : List String) (nodes : List Phrase.Node) :
    ofItems parent (fields.map .field ++ nodes.map .node)
      = nodes.map (ofPhrase (some parent)) := by
  have hnodes : ofItems parent (nodes.map .node) = nodes.map (ofPhrase (some parent)) := by
    induction nodes with
    | nil => rfl
    | cons node nodes ih => exact congrArg (ofPhrase (some parent) node :: ·) ih
  induction fields with
  | nil => exact hnodes
  | cons field fields ih => exact ih

lemma ofEntries_written (parent : String) (directives : List Directive)
    (items : List Phrase.Item) :
    ofEntries parent (directives.map .directive ++ [.properties items]) = ofItems parent items := by
  induction directives with
  | nil => exact List.append_nil _
  | cons directive directives ih => exact ih

/-- **Gathering gives the tree back.** -/
theorem ofPhrase_derivation {request : Request} {parent : Option String}
    (hparent : request.pattern.HangsBelow parent) (h : ∀ node ∈ request.nodes, node.Linked) :
    ofPhrase parent request.derivation.settle.phrase = request := by
  induction request using Request.induction generalizing parent with
  | node pattern children ih =>
      rw [nodes_eq, List.forall_mem_cons] at h
      obtain ⟨hlinked, hbelow⟩ := h
      have hchild : ∀ child ∈ children,
          ofPhrase (some pattern.name) child.derivation.settle.phrase = child := by
        intro child hmem
        have hhangs : child.pattern.HangsBelow (some pattern.name) := hlinked child hmem
        exact ih child hmem hhangs fun node hnode => hbelow node (nodes_subset_nodesOf hmem hnode)
      have hfields : Phrase.itemFields (items pattern.fields children) = pattern.fields := by
        rw [items, Phrase.itemFields_written]
      rw [phrase_settle_derivation, ofPhrase, Pattern.ofPhrase_written hparent hfields,
        Option.getD_some, ofEntries_written, items,
        ofItems_written, List.map_map]
      congr 1
      exact (List.map_congr_left hchild).trans (List.map_id' children)

/-! ## Reading the canonical text -/

/-- Well-formed trees have no node that registration refuses. -/
lemma WellFormed.registrable {request : Request} (h : request.WellFormed) :
    ∀ node ∈ request.nodes, node.Registrable := by
  intro node hnode
  refine ⟨?_, h.reports node hnode⟩
  rcases eq_or_mem_children hnode with rfl | ⟨above, habove, hchild⟩
  · simp [Pattern.lacksEdge, h.root_edge, Pattern.isRoot, h.root_parent]
  · obtain ⟨edge, hedge, hne⟩ := h.edges above habove node hchild
    simp [Pattern.lacksEdge, hedge, hne]

lemma WellFormed.derives {request : Request} (h : request.WellFormed) :
    request.derivation.Derives request.canonical := by
  have hnode := takes_derivation request h.lexical [] nofun
  rw [List.append_nil] at hnode
  exact ⟨_, .refl, [], hnode, .refl⟩

/-- **Exactly the well-formed trees can be written**: the canonical text of a tree is read as this
    very tree if and only if the tree is well formed. -/
theorem ofText_canonical_iff (request : Request) :
    (ofText request.canonical).2 = .ok request ↔ request.WellFormed := by
  refine ⟨fun h => Accepted.wellFormed ⟨_, h⟩, fun h => ofText_eq_ok_iff.mpr ?_⟩
  exact ⟨_, [], Phrase.value_request_of_derives h.derives,
    ofPhrase_derivation ⟨h.root_parent, h.root_edge⟩ h.linked, h.registrable, h.names⟩

example : canonical ⟨⟨"Gene", "labels", [⟨"id", .bound "as"⟩], none, true, false, true, ["graph"],
      none⟩, [⟨⟨"Trait", "t", [⟨"p", .number "01"⟩], some ":has", false, false, false, ["x"],
      some "labels"⟩, []⟩]⟩
    = "Gene(id: <as>) as labels \x7b labels, graph, properties \x7b graph, "
      ++ "Trait(p: 01, relationship: \":has\") as t "
      ++ "\x7b properties \x7b x \x7d \x7d \x7d \x7d" := by
  decide +kernel

end Request

end GraphRequest
