import GraphRequest.Proofs.Request.Canonical
import GraphRequest.Proofs.Request.FirstFault
import GraphRequest.Proofs.Request.Spacing

/-!
# Blocks and commas

A `properties` block only groups items, and a comma after the last part says nothing.  So a block
can be put around items that stand bare in a body or taken away from them, and a last comma can be
written or left out, in any body at any depth.  What cannot be taken out of a block is a field that
is called like a directive: bare, it would be the directive.

* `Phrase.Agree` — that two bodies ask for the same: the same directives, fields and children.
* `Derivation.Rewrites` — one change to a body: a block around items is taken away or put there, or
  a last comma, of the body or of a block, is written or left out.
* `Derivation.Context` — a request but for one of its bodies.  `Derivation.Context.tokens_fill` —
  the tokens of the body stand between tokens that do not depend on it.
* `Derivation.Rewrites.agree` — what was changed asks for the same.
* `Derivation.Context.ofPhrase_fill` — hence the whole request does, whatever is around the body.
* **`Request.ofText_of_rewrites`** — an accepted text with one change to one of its bodies is
  accepted, and comes to the same.
-/

namespace GraphRequest

/-! ## Bodies that ask for the same -/

namespace Phrase

lemma sets_append (directive : Directive) (entries more : List Entry) :
    sets directive (entries ++ more) = (sets directive entries || sets directive more) := by
  induction entries with
  | nil => rfl
  | cons entry entries ih =>
      cases entry with
      | directive other => simp only [List.cons_append, sets, ih, Bool.or_assoc]
      | item item => exact ih
      | properties items => exact ih

/-- That two bodies ask for the same. -/
structure Agree (entries entries' : List Entry) : Prop where
  directives : ∀ directive, sets directive entries = sets directive entries'
  fields : entryFields entries = entryFields entries'
  children : ∀ parent, Request.ofEntries parent entries = Request.ofEntries parent entries'

namespace Agree

variable {entries entries' : List Entry}

lemma refl (entries : List Entry) : Agree entries entries :=
  ⟨fun _ => rfl, rfl, fun _ => rfl⟩

lemma symm (h : Agree entries entries') : Agree entries' entries :=
  ⟨fun directive => (h.directives directive).symm, h.fields.symm, fun parent =>
    (h.children parent).symm⟩

/-- Bodies ask for the same if parts of them do and the rest is equal. -/
lemma inside (h : Agree entries entries') (before after : List Entry) :
    Agree (before ++ (entries ++ after)) (before ++ (entries' ++ after)) where
  directives directive := by simp only [sets_append, h.directives directive]
  fields := by
    have hfields := h.fields
    simp only [entryFields_eq, List.flatMap_append, List.filterMap_append] at hfields ⊢
    rw [hfields]
  children parent := by
    have hchildren := h.children parent
    simp only [Request.ofEntries_eq, List.flatMap_append, List.filterMap_append,
      List.map_append] at hchildren ⊢
    rw [hchildren]

/-- **A block asks for what its items ask for.** -/
lemma block (items : List Item) : Agree [.properties items] (items.map .item) := by
  have hitems : (items.map Entry.item).flatMap Entry.items = items := by
    rw [List.flatMap_map]
    exact List.flatMap_singleton' items
  have hbare : ∀ directive, sets directive (items.map .item) = false := by
    intro directive
    clear hitems
    induction items with
    | nil => rfl
    | cons item items ih => exact ih
  have hblock : [Entry.properties items].flatMap Entry.items = items := List.append_nil items
  refine ⟨fun directive => (hbare directive).symm, ?_, fun parent => ?_⟩
  · rw [entryFields_eq, entryFields_eq, hitems, hblock]
  · rw [Request.ofEntries_eq, Request.ofEntries_eq, hitems, hblock]

end Agree

end Phrase

namespace Request

open Phrase

/-- Nodes with bodies that ask for the same ask for the same. -/
lemma ofPhrase_of_agree {entries entries' : List Entry} (h : Agree entries entries')
    (parent : Option String) (typeName : String) (params : List Parameter)
    (nodeAlias : Option String) :
    ofPhrase parent (.mk typeName params nodeAlias entries)
      = ofPhrase parent (.mk typeName params nodeAlias entries') := by
  simp only [ofPhrase, Pattern.ofPhrase, h.directives, h.fields, h.children]

/-- Children that ask for the same can stand for one another in a body. -/
lemma agree_child {node node' : Node}
    (h : ∀ parent, ofPhrase parent node = ofPhrase parent node') :
    Agree [.item (.node node)] [.item (.node node')] where
  directives _ := rfl
  fields := rfl
  children parent := by simp only [ofEntries, ofEntry, ofItem, h]

/-- They can do so in a block. -/
lemma agree_child_in_block {node node' : Node}
    (h : ∀ parent, ofPhrase parent node = ofPhrase parent node') (before after : List Item) :
    Agree [.properties (before ++ .node node :: after)]
      [.properties (before ++ .node node' :: after)] where
  directives _ := rfl
  fields := by
    simp only [entryFields, itemFields_eq, List.filterMap_append, List.filterMap_cons, Item.field?]
  children parent := by
    simp only [ofEntries, ofEntry, ofItems_eq, List.filterMap_append, List.filterMap_cons,
      Item.node?, List.map_append, List.map_cons, h]

end Request

namespace Derivation

open Stretch

/-! ## One change to a body -/

/-- What stands between two braces, given part by part, and whether a comma comes after the last
    part. -/
def Block.ofParts {α : Type} : List α → Bool → Block α
  | [], _ => .empty
  | first :: rest, comma => .filled first rest comma

/-- That an item is no field that is called like a directive. -/
def Item.Plain : Item → Prop
  | .field name => directive? name = none
  | .node _ => True

/-- One change to a body that keeps what it asks for.

* `unwrap` — a block is taken away from its items, which are plain;
* `wrap` — a block is put around items that stand bare one after the other.  A bare entry that is
  called like a directive is the directive and no item, so these are plain, too;
* `comma` — the comma after the last entry is written or left out;
* `blockComma` — the comma after the last item of a block is written or left out. -/
inductive Rewrites : Block Entry → Block Entry → Prop
  | unwrap (before after : List Entry) (items : List Item) (itemComma comma : Bool)
      (hplain : ∀ item ∈ items, item.Plain) :
      Rewrites (.ofParts (before ++ ([.properties (.ofParts items itemComma)] ++ after)) comma)
        (.ofParts (before ++ (items.map .item ++ after)) comma)
  | wrap (before after : List Entry) (items : List Item) (itemComma comma : Bool)
      (hplain : ∀ item ∈ items, item.Plain) :
      Rewrites (.ofParts (before ++ (items.map .item ++ after)) comma)
        (.ofParts (before ++ ([.properties (.ofParts items itemComma)] ++ after)) comma)
  | comma (entries : List Entry) (comma comma' : Bool) :
      Rewrites (.ofParts entries comma) (.ofParts entries comma')
  | blockComma (before after : List Entry) (items : List Item) (itemComma itemComma' comma : Bool) :
      Rewrites (.ofParts (before ++ ([.properties (.ofParts items itemComma)] ++ after)) comma)
        (.ofParts (before ++ ([.properties (.ofParts items itemComma')] ++ after)) comma)

/-- The entries of a body, as they are read. -/
def readBody (body : Block Entry) : List Phrase.Entry :=
  bodyPhrase (settleBody body)

lemma readBody_ofParts (entries : List Entry) (comma : Bool) :
    readBody (.ofParts entries comma) = entries.map fun entry => entry.settle.phrase := by
  rw [← phrase_settleBody_listed]
  cases entries <;> rfl

lemma readBlock_ofParts (items : List Item) (comma : Bool) :
    blockPhrase (settleBlock (.ofParts items comma))
      = items.map fun item => item.settle.phrase := by
  rw [← phrase_settleBlock_listed]
  cases items <;> rfl

lemma read_properties (items : List Item) (comma : Bool) :
    (Entry.properties (.ofParts items comma)).settle.phrase
      = .properties (items.map fun item => item.settle.phrase) := by
  rw [Entry.settle, Entry.phrase, readBlock_ofParts]

/-- Items that are plain are read alike in a block and in a body. -/
lemma read_item {item : Item} (h : item.Plain) :
    (Entry.item item).settle.phrase = .item item.settle.phrase := by
  cases item with
  | field name =>
      have hname : directive? name = none := h
      rw [Entry.settle, hname]
      rfl
  | node node => rfl

/-- A block around plain items asks for what they ask for without it. -/
lemma agree_unwrap {items : List Item} (hplain : ∀ item ∈ items, item.Plain) (itemComma : Bool)
    (before after : List Entry) (comma : Bool) :
    Phrase.Agree
      (readBody (.ofParts (before ++ ([.properties (.ofParts items itemComma)] ++ after)) comma))
      (readBody (.ofParts (before ++ (items.map .item ++ after)) comma)) := by
  have hbare : items.map (fun item => (Entry.item item).settle.phrase)
      = (items.map fun item => item.settle.phrase).map .item := by
    rw [List.map_map]
    exact List.map_congr_left fun item hitem => read_item (hplain item hitem)
  have hmap : (items.map Entry.item).map (fun entry => entry.settle.phrase)
      = (items.map fun item => item.settle.phrase).map .item := by
    rw [List.map_map]
    exact hbare
  simp only [readBody_ofParts, List.map_append, hmap, List.map_singleton, read_properties]
  exact (Phrase.Agree.block _).inside _ _

/-- **What was changed asks for the same.** -/
theorem Rewrites.agree {body body' : Block Entry} (h : Rewrites body body') :
    Phrase.Agree (readBody body) (readBody body') := by
  cases h with
  | unwrap before after items itemComma comma hplain =>
      exact agree_unwrap hplain itemComma before after comma
  | wrap before after items itemComma comma hplain =>
      exact (agree_unwrap hplain itemComma before after comma).symm
  | comma entries comma comma' =>
      rw [readBody_ofParts, readBody_ofParts]
      exact .refl _
  | blockComma before after items itemComma itemComma' comma =>
      simp only [readBody_ofParts, List.map_append, List.map_singleton, read_properties]
      exact .refl _

/-! ## What is around a body -/

/-- The tokens of parts between two braces. -/
def joined : List (List Token) → Bool → List Token
  | [], _ => []
  | part :: parts, comma => separatedTokens part parts ++ commaTokens comma

/-- The tokens of parts in front of another one. -/
def leading (parts : List (List Token)) : List Token :=
  parts.flatMap fun part => part ++ [.punctuation .comma]

/-- The tokens of parts behind another one. -/
def trailing (parts : List (List Token)) (comma : Bool) : List Token :=
  parts.flatMap (fun part => .punctuation .comma :: part) ++ commaTokens comma

lemma joined_append (before : List (List Token)) (part : List Token) (after : List (List Token))
    (comma : Bool) :
    joined (before ++ part :: after) comma = leading before ++ (part ++ trailing after comma) := by
  have hrounds : ∀ (before : List (List Token)) (rest : List Token),
      before.flatMap (fun part => Token.punctuation .comma :: part) ++ .punctuation .comma :: rest
        = .punctuation .comma :: (leading before ++ rest) := by
    intro before rest
    induction before with
    | nil => rfl
    | cons first before ih => simp [leading, ih]
  cases before with
  | nil => simp [joined, separatedTokens, leading, trailing]
  | cons first before =>
      simp [joined, separatedTokens, leading, trailing, hrounds]

lemma bodyTokens_ofParts (entries : List Entry) (comma : Bool) :
    bodyTokens (.ofParts entries comma) = joined (entries.map Entry.tokens) comma := by
  cases entries with
  | nil => rfl
  | cons first rest => rw [Block.ofParts, bodyTokens, entryTokens_eq_map, List.map_cons, joined]

lemma blockTokens_ofParts (items : List Item) (comma : Bool) :
    blockTokens (.ofParts items comma) = joined (items.map Item.tokens) comma := by
  cases items with
  | nil => rfl
  | cons first rest => rw [Block.ofParts, blockTokens, itemTokens_eq_map, List.map_cons, joined]

/-- The tokens of a node up to its body. -/
def headTokens (typeName : String) (params : List Parameter) (nodeAlias : Option String) :
    List Token :=
  .ident typeName :: (paramsTokens params ++ (aliasTokens nodeAlias ++ [.punctuation .leftBrace]))

/-- A request but for one of its bodies.

* `here` — the body is that of the request;
* `entry` — it is in a child that stands bare among the entries;
* `block` — it is in a child that stands in a block. -/
inductive Context where
  | here (typeName : String) (params : List Parameter) (nodeAlias : Option String)
  | entry (typeName : String) (params : List Parameter) (nodeAlias : Option String)
      (before : List Entry) (child : Context) (after : List Entry) (comma : Bool)
  | block (typeName : String) (params : List Parameter) (nodeAlias : Option String)
      (before : List Entry) (itemsBefore : List Item) (child : Context) (itemsAfter : List Item)
      (itemComma : Bool) (after : List Entry) (comma : Bool)

namespace Context

/-- The request with a body put in. -/
def fill (body : Block Entry) : Context → Node
  | here typeName params nodeAlias => .mk typeName params nodeAlias body
  | entry typeName params nodeAlias before child after comma =>
    .mk typeName params nodeAlias
      (.ofParts (before ++ ([.item (.node (child.fill body))] ++ after)) comma)
  | block typeName params nodeAlias before itemsBefore child itemsAfter itemComma after comma =>
    .mk typeName params nodeAlias
      (.ofParts (before ++ ([.properties
        (.ofParts (itemsBefore ++ .node (child.fill body) :: itemsAfter) itemComma)] ++ after))
        comma)

/-- The tokens in front of the body. -/
def before : Context → List Token
  | here typeName params nodeAlias => headTokens typeName params nodeAlias
  | entry typeName params nodeAlias before child _ _ =>
    headTokens typeName params nodeAlias ++ (leading (before.map Entry.tokens) ++ child.before)
  | block typeName params nodeAlias before itemsBefore child _ _ _ _ =>
    headTokens typeName params nodeAlias ++ (leading (before.map Entry.tokens)
      ++ (.ident "properties" :: .punctuation .leftBrace
        :: (leading (itemsBefore.map Item.tokens) ++ child.before)))

/-- The tokens behind the body. -/
def after : Context → List Token
  | here _ _ _ => [.punctuation .rightBrace]
  | entry _ _ _ _ child after comma =>
    child.after ++ (trailing (after.map Entry.tokens) comma ++ [.punctuation .rightBrace])
  | block _ _ _ _ _ child itemsAfter itemComma after comma =>
    child.after ++ (trailing (itemsAfter.map Item.tokens) itemComma
      ++ (.punctuation .rightBrace
        :: (trailing (after.map Entry.tokens) comma ++ [.punctuation .rightBrace])))

/-- **A body stands between tokens that do not depend on it.** -/
theorem tokens_fill (body : Block Entry) (context : Context) :
    (context.fill body).tokens = context.before ++ (bodyTokens body ++ context.after) := by
  induction context with
  | here typeName params nodeAlias =>
      simp [fill, Node.tokens, enclosedTokens, before, after, headTokens]
  | entry typeName params nodeAlias before child after comma ih =>
      simp [fill, Node.tokens, enclosedTokens, Context.before, Context.after, headTokens,
        bodyTokens_ofParts, joined_append, Entry.tokens, Item.tokens, ih]
  | block typeName params nodeAlias before itemsBefore child itemsAfter itemComma after comma ih =>
      simp [fill, Node.tokens, enclosedTokens, Context.before, Context.after, headTokens,
        bodyTokens_ofParts, blockTokens_ofParts, joined_append, Entry.tokens, Item.tokens, ih]

/-- **A request asks for the same if one of its bodies does.** -/
theorem ofPhrase_fill {body body' : Block Entry} (h : Phrase.Agree (readBody body) (readBody body'))
    (context : Context) (parent : Option String) :
    Request.ofPhrase parent (context.fill body).settle.phrase
      = Request.ofPhrase parent (context.fill body').settle.phrase := by
  induction context generalizing parent with
  | here typeName params nodeAlias => exact Request.ofPhrase_of_agree h parent _ _ _
  | entry typeName params nodeAlias before child after comma ih =>
      refine Request.ofPhrase_of_agree ?_ parent _ _ _
      change Phrase.Agree (readBody _) (readBody _)
      simp only [readBody_ofParts, List.map_append, List.map_cons, List.map_nil]
      exact (Request.agree_child ih).inside _ _
  | block typeName params nodeAlias before itemsBefore child itemsAfter itemComma after comma ih =>
      refine Request.ofPhrase_of_agree ?_ parent _ _ _
      change Phrase.Agree (readBody _) (readBody _)
      simp only [readBody_ofParts, List.map_append, List.map_cons, List.map_nil, read_properties]
      exact (Request.agree_child_in_block ih _ _).inside _ _

end Context

end Derivation

/-! ## Texts -/

namespace Request

open GraphRequest.Derivation

/-- **Blocks and last commas make no difference.**  In an accepted text the tokens of a body, in
    whatever node, are exchanged for those of the body after one change.  The new text is accepted,
    and what comes of it is the same tree or the same fault, with the same nodes registered
    before. -/
theorem ofText_of_rewrites {context : Context} {body body' : Block Entry} {text text' : String}
    (hderives : (context.fill body).Derives text) (h : Rewrites body body')
    (htokens : Token.ofText text' = context.before ++ (bodyTokens body' ++ context.after)) :
    Peg.Accepts text'.toList ∧ ofText text' = ofText text := by
  have hderives' : (context.fill body').Derives text' :=
    derives_iff.mpr (htokens.trans (context.tokens_fill body').symm)
  refine ⟨Peg.accepts_of_derives hderives', ?_⟩
  exact ofText_congr hderives hderives' (context.ofPhrase_fill h.agree none)

/-- A gene with its traits: the block in the body of the traits is taken away. -/
theorem ofText_of_rewrites_gene_with_traits :
    ∃ (context : Context) (body body' : Block Entry) (text text' : String),
      (context.fill body).Derives text ∧ Rewrites body body'
        ∧ Token.ofText text' = context.before ++ (bodyTokens body' ++ context.after)
        ∧ text = "Gene() \x7b name, Trait(relationship: \":has\") as t "
          ++ "\x7b properties \x7b p, \x7d \x7d \x7d"
        ∧ text' = "Gene() \x7b name, Trait(relationship: \":has\") as t \x7b p \x7d \x7d"
        ∧ Peg.Accepts text'.toList ∧ ofText text' = ofText text := by
  let context : Context := .entry "Gene" [] none [.item (.field "name")]
    (.here "Trait" [⟨"relationship", .string ":has"⟩] (some "t")) [] false
  let body : Block Entry := .ofParts [.properties (.ofParts [.field "p"] true)] false
  let body' : Block Entry := .ofParts [.item (.field "p")] false
  have hderives : (context.fill body).Derives
      ("Gene() \x7b name, Trait(relationship: \":has\") as t "
        ++ "\x7b properties \x7b p, \x7d \x7d \x7d") :=
    derives_iff.mpr (by decide +kernel)
  have hrewrites : Rewrites body body' :=
    .unwrap [] [] [.field "p"] true false (List.forall_mem_singleton.mpr rfl)
  have htokens : Token.ofText
      "Gene() \x7b name, Trait(relationship: \":has\") as t \x7b p \x7d \x7d"
        = context.before ++ (bodyTokens body' ++ context.after) := by
    decide +kernel
  exact ⟨context, body, body', _, _, hderives, hrewrites, htokens, rfl, rfl,
    ofText_of_rewrites hderives hrewrites htokens⟩

end Request

end GraphRequest
