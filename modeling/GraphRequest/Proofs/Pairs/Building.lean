import GraphRequest.Proofs.Pairs.Grammar
import GraphRequest.Proofs.Request.WellFormed

/-!
# Building a request from pairs

The pairs that matching leaves do not say what they hold, so whoever takes them apart must rely on
how many there are and of which rules.  Here a request is built from them by position, and every
place where the pairs could be other than they should be is an outcome of its own, `Stop.panicked`.

* `Pair.Shaped` — that the pairs of a rule are those its places rely on, and so everywhere inside.
* `Peg.buildNode`, `Peg.build` — a request from the pairs of a node or of a whole text, checked
  while it is built.
* `Peg.NodePair` — the pairs that stand for a phrase.
* `Peg.NodePair.shaped` — these have the shape.
* `Peg.buildNode_eq` — what is built from them is what the phrase asks for, with the faults that
  registration finds; so building does not panic.
-/

namespace GraphRequest.Peg

/-! ## Taking pairs apart -/

/-- How building ends without a request: with a fault, or where the pairs should not lead. -/
inductive Stop where
  | refused (fault : Fault)
  | panicked

/-- The value of a parameter. -/
def Pair.value : Pair → Except Stop Value
  | .mk .bound _ inner => .ok (.bound (textOf inner))
  | .mk .number span _ => .ok (.number span.text)
  | .mk .string _ inner => .ok (.string (textOf inner))
  | _ => .error .panicked

/-- Adds a parameter: a filter, or below another node the edge to it. -/
def addParam (pattern : Pattern) : Pair → Except Stop Pattern
  | .mk _ _ [key, given] => do
    let value ← given.value
    if pattern.parent.isSome && key.text == Phrase.edgeKey then
      .ok { pattern with edge := some value.raw }
    else .ok { pattern with filters := pattern.filters ++ [⟨key.text, value⟩] }
  | _ => .error .panicked

/-- The name an alias gives. -/
def Pair.aliasName : Pair → Except Stop String
  | .mk _ _ (name :: _) => .ok name.text
  | _ => .error .panicked

/-- The pattern of a node before its body is looked at, taken in among the names seen. -/
def begin (parent : Option String) (seen : List String) (typeName params : Pair)
    (given : Option String) : Except Stop (Pattern × List String) := do
  let pattern ← params.inner.foldlM addParam { Pattern.bare typeName.text given with parent }
  if pattern.lacksEdge then .error (.refused (.missingRelationship pattern.typeName))
  else if pattern.name ∈ seen then .error (.refused (.duplicateAlias pattern.typeName))
  else .ok (pattern, seen ++ [pattern.name])

/-- A node after its body was looked at. -/
def finish (request : Request) (seen : List String) : Except Stop (Request × List String) :=
  if request.pattern.fields.isEmpty && request.children.isEmpty then
    .error (.refused (.noFields request.pattern.typeName))
  else .ok (request, seen)

/-- Adds directives, fields and children to a node. -/
def gathered (sofar : Request) (sets : Directive → Bool) (fields : List String)
    (children : List Request) : Request :=
  { pattern :=
      { sofar.pattern with
        labels := sofar.pattern.labels || sets .labels
        relationships := sofar.pattern.relationships || sets .relationships
        graph := sofar.pattern.graph || sets .graph
        fields := sofar.pattern.fields ++ fields }
    children := sofar.children ++ children }

mutual

/-- Builds the node that pairs stand for, below `parent`, after the names `seen`. -/
def buildNode (parent : Option String) (seen : List String) :
    List Pair → Except Stop (Request × List String)
  | typeName :: params :: nodeAlias :: .mk _ _ entries :: _ => do
    let given ← nodeAlias.aliasName
    let (pattern, known) ← begin parent seen typeName params (some given)
    let (request, known) ← buildEntries ⟨pattern, []⟩ known entries
    finish request known
  | [typeName, params, .mk _ _ entries] => do
    let (pattern, known) ← begin parent seen typeName params none
    let (request, known) ← buildEntries ⟨pattern, []⟩ known entries
    finish request known
  | _ => .error .panicked
termination_by structural pairs => pairs

/-- Adds what pairs in a body stand for. -/
def buildEntries (sofar : Request) (seen : List String) :
    List Pair → Except Stop (Request × List String)
  | [] => .ok (sofar, seen)
  | pair :: pairs => do
    let (request, known) ← buildEntry sofar seen pair
    buildEntries request known pairs
termination_by structural pairs => pairs

/-- Adds what a pair in a body stands for. -/
def buildEntry (sofar : Request) (seen : List String) : Pair → Except Stop (Request × List String)
  | .mk .labels _ _ => .ok (gathered sofar (Directive.labels == ·) [] [], seen)
  | .mk .relationships _ _ => .ok (gathered sofar (Directive.relationships == ·) [] [], seen)
  | .mk .graph _ _ => .ok (gathered sofar (Directive.graph == ·) [] [], seen)
  | .mk .properties _ items => buildItems sofar seen items
  | .mk .field span _ => .ok (gathered sofar (fun _ => false) [span.text] [], seen)
  | .mk .node _ inner => do
    let (child, known) ← buildNode (some sofar.pattern.name) seen inner
    .ok (gathered sofar (fun _ => false) [] [child], known)
  | _ => .error .panicked
termination_by structural pair => pair

/-- Adds what pairs in a block stand for. -/
def buildItems (sofar : Request) (seen : List String) :
    List Pair → Except Stop (Request × List String)
  | [] => .ok (sofar, seen)
  | pair :: pairs => do
    let (request, known) ← buildItem sofar seen pair
    buildItems request known pairs
termination_by structural pairs => pairs

/-- Adds what a pair in a block stands for. -/
def buildItem (sofar : Request) (seen : List String) : Pair → Except Stop (Request × List String)
  | .mk .field span _ => .ok (gathered sofar (fun _ => false) [span.text] [], seen)
  | .mk .node _ inner => do
    let (child, known) ← buildNode (some sofar.pattern.name) seen inner
    .ok (gathered sofar (fun _ => false) [] [child], known)
  | _ => .error .panicked
termination_by structural pair => pair

end

/-- Builds the request that the pairs of a text stand for.  The first of them is the root. -/
def build : List Pair → Except Stop Request
  | [] => .error .panicked
  | root :: _ => Prod.fst <$> buildNode none [] root.inner

/-- In a body an item is what it is in a block. -/
lemma buildEntry_eq_buildItem {pair : Pair} (h : pair.symbol = .field ∨ pair.symbol = .node)
    (sofar : Request) (seen : List String) :
    buildEntry sofar seen pair = buildItem sofar seen pair := by
  obtain ⟨symbol, span, inner⟩ := pair
  rcases h with rfl | rfl <;> rfl

/-! ## The shape of pairs -/

/-- What the pairs inside a pair of a rule must be like. -/
def Symbol.Holds (span : Span) (inner : List Pair) : Symbol → Prop
  | .node =>
    inner.map Pair.symbol = [.ident, .params, .body]
      ∨ inner.map Pair.symbol = [.ident, .params, .nodeAlias, .body]
  | .params => ∀ pair ∈ inner, pair.symbol = .param
  | .param => ∃ kind ∈ [Symbol.bound, .number, .string], inner.map Pair.symbol = [.ident, kind]
  | .nodeAlias => inner.map Pair.symbol = [.ident]
  | .body => ∀ pair ∈ inner, pair.symbol ∈
      [Symbol.node, .labels, .relationships, .graph, .properties, .field]
  | .properties => ∀ pair ∈ inner, pair.symbol ∈ [Symbol.node, .field]
  | .field => inner.map Pair.symbol = [.ident]
  | .bound => inner.map Pair.symbol = [.ident] ∧ span.text = "<" ++ Pair.textOf inner ++ ">"
  | .string =>
    inner.map Pair.symbol = [.stringInner] ∧ span.text = "\"" ++ Pair.textOf inner ++ "\""
  | .ident | .number | .stringInner | .labels | .relationships | .graph | .endOfInput => inner = []
  | .blank | .identChar | .value | .directive | .item | .items | .entry | .query => False

/-- That a pair and all pairs inside it are what their places rely on. -/
inductive Pair.Shaped : Pair → Prop
  | mk {symbol : Symbol} {span : Span} {inner : List Pair} (holds : symbol.Holds span inner)
      (inside : ∀ pair ∈ inner, pair.Shaped) : Shaped (.mk symbol span inner)

/-! ## The pairs of a phrase -/

/-- The pair of a name. -/
inductive IdentPair (name : String) : Pair → Prop
  | mk {span : Span} (htext : span.text = name) : IdentPair name (.mk .ident span [])

/-- The pair of a value. -/
inductive ValuePair : Value → Pair → Prop
  | bound {name : String} {span : Span} {inner : Pair} (hinner : IdentPair name inner)
      (htext : span.text = "<" ++ name ++ ">") : ValuePair (.bound name) (.mk .bound span [inner])
  | number {digits : String} {span : Span} (htext : span.text = digits) :
      ValuePair (.number digits) (.mk .number span [])
  | string {text : String} {span inner : Span} (hinner : inner.text = text)
      (htext : span.text = "\"" ++ text ++ "\"") :
      ValuePair (.string text) (.mk .string span [.mk .stringInner inner []])

/-- The pair of a parameter. -/
inductive ParamPair : Parameter → Pair → Prop
  | mk {param : Parameter} {span : Span} {key value : Pair} (hkey : IdentPair param.key key)
      (hvalue : ValuePair param.value value) : ParamPair param (.mk .param span [key, value])

/-- The pair of the parameters of a node. -/
inductive ParamsPair (params : List Parameter) : Pair → Prop
  | mk {span : Span} {inner : List Pair} (hinner : List.Forall₂ ParamPair params inner) :
      ParamsPair params (.mk .params span inner)

/-- The pairs of an alias, if there is one. -/
inductive AliasPairs : Option String → List Pair → Prop
  | none : AliasPairs none []
  | some {name : String} {span : Span} {inner : Pair} (hinner : IdentPair name inner) :
      AliasPairs (some name) [.mk .nodeAlias span [inner]]

/-- The rule of a directive. -/
def directiveSymbol : Directive → Symbol
  | .labels => .labels
  | .relationships => .relationships
  | .graph => .graph

mutual

/-- The pair of a node. -/
inductive NodePair : Phrase.Node → Pair → Prop
  | mk {typeName : String} {params : List Parameter} {nodeAlias : Option String}
      {entries : List Phrase.Entry} {name paramsPair : Pair} {aliasPairs inner : List Pair}
      {span bodySpan : Span} (htype : IdentPair typeName name)
      (hparams : ParamsPair params paramsPair) (halias : AliasPairs nodeAlias aliasPairs)
      (hentries : List.Forall₂ EntryPair entries inner) :
      NodePair (.mk typeName params nodeAlias entries)
        (.mk .node span (name :: paramsPair :: (aliasPairs ++ [.mk .body bodySpan inner])))

/-- The pair of an item. -/
inductive ItemPair : Phrase.Item → Pair → Prop
  | field {name : String} {span : Span} {inner : Pair} (hinner : IdentPair name inner)
      (htext : span.text = name) : ItemPair (.field name) (.mk .field span [inner])
  | node {node : Phrase.Node} {pair : Pair} (h : NodePair node pair) : ItemPair (.node node) pair

/-- The pair of an entry. -/
inductive EntryPair : Phrase.Entry → Pair → Prop
  | directive {directive : Directive} {span : Span} :
      EntryPair (.directive directive) (.mk (directiveSymbol directive) span [])
  | item {item : Phrase.Item} {pair : Pair} (h : ItemPair item pair) : EntryPair (.item item) pair
  | properties {items : List Phrase.Item} {span : Span} {inner : List Pair}
      (hinner : List.Forall₂ ItemPair items inner) :
      EntryPair (.properties items) (.mk .properties span inner)

end

/-! ### They have the shape -/

lemma IdentPair.symbol_eq {name : String} {pair : Pair} (h : IdentPair name pair) :
    pair.symbol = .ident := by
  cases h
  rfl

lemma IdentPair.text_eq {name : String} {pair : Pair} (h : IdentPair name pair) :
    pair.text = name := by
  cases h with
  | mk htext => exact htext

lemma IdentPair.shaped {name : String} {pair : Pair} (h : IdentPair name pair) : pair.Shaped := by
  cases h
  exact .mk rfl (List.forall_mem_nil _)

lemma ValuePair.symbol_mem {value : Value} {pair : Pair} (h : ValuePair value pair) :
    pair.symbol ∈ [Symbol.bound, .number, .string] := by
  cases h <;> simp [Pair.symbol]

lemma textOf_singleton (pair : Pair) : Pair.textOf [pair] = pair.text := by
  cases pair
  rfl

lemma ValuePair.shaped {value : Value} {pair : Pair} (h : ValuePair value pair) : pair.Shaped := by
  cases h with
  | bound hinner htext =>
      refine .mk ⟨?_, ?_⟩ (List.forall_mem_singleton.mpr hinner.shaped)
      · rw [List.map_singleton, hinner.symbol_eq]
      · rw [htext, textOf_singleton, hinner.text_eq]
  | number htext => exact .mk rfl (List.forall_mem_nil _)
  | string hinner htext =>
      refine .mk ⟨rfl, ?_⟩ (List.forall_mem_singleton.mpr (.mk rfl (List.forall_mem_nil _)))
      rw [htext, textOf_singleton, ← hinner]
      rfl

lemma ParamPair.shaped {param : Parameter} {pair : Pair} (h : ParamPair param pair) :
    pair.symbol = .param ∧ pair.Shaped := by
  cases h with
  | @mk span key value hkey hvalue =>
      have hinside : ∀ pair ∈ [key, value], pair.Shaped := by
        simp [hkey.shaped, hvalue.shaped]
      exact ⟨rfl, .mk ⟨value.symbol, hvalue.symbol_mem, by simp [hkey.symbol_eq]⟩ hinside⟩

lemma ParamsPair.shaped {params : List Parameter} {pair : Pair} (h : ParamsPair params pair) :
    pair.symbol = .params ∧ pair.Shaped := by
  cases h with
  | @mk span inner hinner =>
      have hall : ∀ pair ∈ inner, pair.symbol = .param ∧ pair.Shaped := by
        clear span
        induction hinner with
        | nil => exact List.forall_mem_nil _
        | cons hparam _ ih => exact List.forall_mem_cons.mpr ⟨hparam.shaped, ih⟩
      exact ⟨rfl, .mk (fun pair hmem => (hall pair hmem).1) fun pair hmem => (hall pair hmem).2⟩

lemma AliasPairs.shaped {nodeAlias : Option String} {pairs : List Pair}
    (h : AliasPairs nodeAlias pairs) :
    (pairs.map Pair.symbol = [] ∨ pairs.map Pair.symbol = [.nodeAlias])
      ∧ ∀ pair ∈ pairs, pair.Shaped := by
  cases h with
  | none => exact ⟨Or.inl rfl, List.forall_mem_nil _⟩
  | @some name span inner hinner =>
      have hshaped : Pair.Shaped (.mk .nodeAlias span [inner]) :=
        .mk (by rw [Symbol.Holds, List.map_singleton, hinner.symbol_eq])
          (List.forall_mem_singleton.mpr hinner.shaped)
      exact ⟨Or.inr rfl, List.forall_mem_singleton.mpr hshaped⟩

mutual

/-- **The pairs of a phrase have the shape** that their places rely on. -/
theorem NodePair.shaped : ∀ (node : Phrase.Node) (pair : Pair), NodePair node pair →
    pair.symbol = .node ∧ pair.Shaped
  | .mk typeName params nodeAlias entries => by
      intro pair h
      cases h with
      | @mk _ _ _ _ name paramsPair aliasPairs inner span bodySpan htype hparams halias hentries =>
          obtain ⟨hsymbol, hparams⟩ := hparams.shaped
          obtain ⟨hsymbols, halias⟩ := halias.shaped
          have hbody : Pair.Shaped (.mk .body bodySpan inner) :=
            .mk (fun pair hmem => (EntryPair.allShaped entries inner hentries pair hmem).1)
              fun pair hmem => (EntryPair.allShaped entries inner hentries pair hmem).2
          refine ⟨rfl, .mk ?_ ?_⟩
          · rw [Symbol.Holds, List.map_cons, List.map_cons, List.map_append, htype.symbol_eq,
              hsymbol]
            rcases hsymbols with hnone | hsome
            · exact Or.inl (by rw [hnone]; rfl)
            · exact Or.inr (by rw [hsome]; rfl)
          · simp only [List.forall_mem_cons, List.forall_mem_append]
            exact ⟨htype.shaped, hparams, halias, hbody, List.forall_mem_nil _⟩
termination_by structural node => node

lemma ItemPair.shaped : ∀ (item : Phrase.Item) (pair : Pair), ItemPair item pair →
    pair.symbol ∈ [Symbol.node, .field] ∧ pair.Shaped
  | .field name => by
      intro pair h
      cases h with
      | field hinner _ =>
          refine ⟨by simp [Pair.symbol], .mk ?_ (List.forall_mem_singleton.mpr hinner.shaped)⟩
          rw [Symbol.Holds, List.map_singleton, hinner.symbol_eq]
  | .node node => by
      intro pair h
      cases h with
      | node h =>
          obtain ⟨hsymbol, hshaped⟩ := NodePair.shaped node pair h
          exact ⟨by simp [hsymbol], hshaped⟩
termination_by structural item => item

lemma ItemPair.allShaped : ∀ (items : List Phrase.Item) (pairs : List Pair),
    List.Forall₂ ItemPair items pairs →
      ∀ pair ∈ pairs, pair.symbol ∈ [Symbol.node, .field] ∧ pair.Shaped
  | [] => by
      rintro pairs ⟨⟩
      exact List.forall_mem_nil _
  | item :: items => by
      rintro pairs (_ | ⟨h, hs⟩)
      exact List.forall_mem_cons.mpr ⟨ItemPair.shaped item _ h, ItemPair.allShaped items _ hs⟩
termination_by structural items => items

lemma EntryPair.shaped : ∀ (entry : Phrase.Entry) (pair : Pair), EntryPair entry pair →
    pair.symbol ∈ [Symbol.node, .labels, .relationships, .graph, .properties, .field]
      ∧ pair.Shaped
  | .directive directive => by
      rintro pair ⟨⟩
      cases directive <;>
        exact ⟨by simp [Pair.symbol, directiveSymbol], .mk rfl (List.forall_mem_nil _)⟩
  | .item item => by
      intro pair h
      cases h with
      | item h =>
          obtain ⟨hsymbol, hshaped⟩ := ItemPair.shaped item pair h
          refine ⟨?_, hshaped⟩
          simp only [List.mem_cons, List.not_mem_nil, or_false] at hsymbol ⊢
          tauto
  | .properties items => by
      intro pair h
      cases h with
      | @properties _ span inner hinner =>
          have hall := ItemPair.allShaped items inner hinner
          exact ⟨by simp [Pair.symbol], .mk (fun pair hmem => (hall pair hmem).1)
            fun pair hmem => (hall pair hmem).2⟩
termination_by structural entry => entry

lemma EntryPair.allShaped : ∀ (entries : List Phrase.Entry) (pairs : List Pair),
    List.Forall₂ EntryPair entries pairs →
      ∀ pair ∈ pairs,
        pair.symbol ∈ [Symbol.node, .labels, .relationships, .graph, .properties, .field]
          ∧ pair.Shaped
  | [] => by
      rintro pairs ⟨⟩
      exact List.forall_mem_nil _
  | entry :: entries => by
      rintro pairs (_ | ⟨h, hs⟩)
      exact List.forall_mem_cons.mpr
        ⟨EntryPair.shaped entry _ h, EntryPair.allShaped entries _ hs⟩
termination_by structural entries => entries

end

/-! ## What is built from them -/

lemma ok_bind {α β : Type} (x : α) (next : α → Except Stop β) :
    (Except.ok x >>= next) = next x :=
  rfl

lemma ValuePair.value_eq {value : Value} {pair : Pair} (h : ValuePair value pair) :
    pair.value = .ok value := by
  cases h with
  | bound hinner _ => rw [Pair.value, textOf_singleton, hinner.text_eq]
  | number htext => rw [Pair.value, htext]
  | string hinner _ =>
      rw [Pair.value, textOf_singleton, ← hinner]
      rfl

/-- Whether a parameter of a pattern is the edge. -/
def isEdge (pattern : Pattern) (param : Parameter) : Bool :=
  pattern.parent.isSome && param.key == Phrase.edgeKey

lemma addParam_eq {param : Parameter} {pair : Pair} (h : ParamPair param pair)
    (pattern : Pattern) :
    addParam pattern pair = .ok (if isEdge pattern param then
        { pattern with edge := some param.value.raw }
      else { pattern with filters := pattern.filters ++ [param] }) := by
  cases h with
  | mk hkey hvalue =>
      rw [addParam, hvalue.value_eq, ok_bind, hkey.text_eq, isEdge]
      by_cases hedge : (pattern.parent.isSome && param.key == Phrase.edgeKey) = true
      · rw [if_pos hedge, if_pos hedge]
      · rw [if_neg hedge, if_neg hedge]

/-- A pattern with parameters: those that are no edge become filters, and of the others the last
    one counts. -/
def withParams (pattern : Pattern) (params : List Parameter) : Pattern :=
  { pattern with
    filters := pattern.filters ++ params.filter fun param => !isEdge pattern param
    edge := ((params.filter (isEdge pattern)).getLast?.map fun param => param.value.raw).or
      pattern.edge }

lemma foldlM_addParam {params : List Parameter} {inner : List Pair}
    (h : List.Forall₂ ParamPair params inner) (pattern : Pattern) :
    inner.foldlM addParam pattern = .ok (withParams pattern params) := by
  induction h generalizing pattern with
  | nil =>
      rw [List.foldlM_nil, withParams, List.filter_nil, List.filter_nil, List.append_nil]
      rfl
  | @cons param pair params inner hparam _ ih =>
      rw [List.foldlM_cons, addParam_eq hparam, ok_bind, ih]
      by_cases hedge : isEdge pattern param = true
      · have hsame : isEdge { pattern with edge := some param.value.raw } = isEdge pattern := rfl
        rw [if_pos hedge, withParams, withParams, hsame, List.filter_cons_of_pos hedge,
          List.filter_cons_of_neg (by simp [hedge]), List.getLast?_cons]
        cases (params.filter (isEdge pattern)).getLast? <;> rfl
      · have hsame : isEdge { pattern with filters := pattern.filters ++ [param] }
            = isEdge pattern := rfl
        rw [if_neg hedge, withParams, withParams, hsame, List.filter_cons_of_neg hedge,
          List.filter_cons_of_pos (by simp [hedge]), List.append_assoc]
        rfl

/-- What adding the phrases of a body comes to, where `children` are the nodes among them: they are
    registered after the nodes seen before. -/
def gathering (seen : List Pattern) (sofar : Request) (sets : Directive → Bool)
    (fields : List String) (children : List Request) : Except Stop (Request × List String) :=
  match Request.registerAll seen children with
  | (_, some fault) => .error (.refused fault)
  | (known, none) => .ok (gathered sofar sets fields children, known.map Pattern.name)

lemma registerAll_append (seen : List Pattern) (before after : List Request) :
    Request.registerAll seen (before ++ after) = match Request.registerAll seen before with
      | (known, some fault) => (known, some fault)
      | (known, none) => Request.registerAll known after := by
  induction before generalizing seen with
  | nil => rfl
  | cons request before ih =>
      rw [List.cons_append, Request.registerAll, Request.registerAll]
      rcases Request.register seen request with ⟨known, _ | fault⟩
      · exact ih known
      · rfl

lemma gathered_nothing (sofar : Request) : gathered sofar (fun _ => false) [] [] = sofar := by
  cases sofar
  simp [gathered]

lemma gathered_gathered (sofar : Request) (sets sets' : Directive → Bool)
    (fields fields' : List String) (children children' : List Request) :
    gathered (gathered sofar sets fields children) sets' fields' children'
      = gathered sofar (fun directive => sets directive || sets' directive) (fields ++ fields')
        (children ++ children') := by
  simp only [gathered, Bool.or_assoc, List.append_assoc]

/-- Adding one thing and then another is adding both. -/
lemma gathering_bind {seen : List Pattern} {sofar : Request} {sets sets' : Directive → Bool}
    {fields fields' : List String} {children children' : List Request}
    {next : Request × List String → Except Stop (Request × List String)}
    (h : ∀ known, next (gathered sofar sets fields children, known.map Pattern.name)
      = gathering known (gathered sofar sets fields children) sets' fields' children') :
    (gathering seen sofar sets fields children >>= next)
      = gathering seen sofar (fun directive => sets directive || sets' directive)
        (fields ++ fields') (children ++ children') := by
  rw [gathering, gathering, registerAll_append]
  rcases Request.registerAll seen children with ⟨known, _ | fault⟩
  · simp only [ok_bind, h, gathering, gathered_gathered]
  · rfl

lemma sets_cons (directive : Directive) (entry : Phrase.Entry) (entries : List Phrase.Entry) :
    Phrase.sets directive (entry :: entries)
      = (Phrase.sets directive [entry] || Phrase.sets directive entries) := by
  cases entry <;> simp [Phrase.sets]

/-- What registering a tree comes to. -/
def settled (seen : List Pattern) (request : Request) : Except Stop (Request × List String) :=
  match request.register seen with
  | (_, some fault) => .error (.refused fault)
  | (known, none) => .ok (request, known.map Pattern.name)

lemma gathering_child (seen : List Pattern) (sofar child : Request) :
    (settled seen child >>= fun (child, known) =>
        .ok (gathered sofar (fun _ => false) [] [child], known))
      = gathering seen sofar (fun _ => false) [] [child] := by
  rw [settled, gathering, Request.registerAll]
  rcases child.register seen with ⟨known, _ | fault⟩ <;> rfl

/-- The pattern of a node before its body is looked at. -/
def opening (parent : Option String) (typeName : String) (params : List Parameter)
    (given : Option String) : Pattern :=
  Pattern.ofPhrase parent typeName params given []

lemma withParams_bare (parent : Option String) (typeName : String) (params : List Parameter)
    (given : Option String) :
    withParams { Pattern.bare typeName given with parent } params
      = opening parent typeName params given := by
  rw [withParams]
  simp only [Pattern.bare, List.nil_append, Option.or_none]
  rfl

lemma begin_eq {typeName : String} {params : List Parameter} {name paramsPair : Pair}
    (htype : IdentPair typeName name) (hparams : ParamsPair params paramsPair)
    (parent given : Option String) (seen : List String) :
    begin parent seen name paramsPair given
      = if (opening parent typeName params given).lacksEdge then
          .error (.refused (.missingRelationship typeName))
        else if given.getD typeName ∈ seen then .error (.refused (.duplicateAlias typeName))
        else .ok (opening parent typeName params given, seen ++ [given.getD typeName]) := by
  cases hparams with
  | mk hinner =>
      rw [begin, Pair.inner_mk, foldlM_addParam hinner, ok_bind, htype.text_eq, withParams_bare]
      rfl

/-- Adding what a body stands for to the opening of a node makes the node. -/
lemma gathered_opening (parent : Option String) (typeName : String) (params : List Parameter)
    (nodeAlias : Option String) (entries : List Phrase.Entry) :
    gathered ⟨opening parent typeName params nodeAlias, []⟩
        (fun directive => Phrase.sets directive entries) (Phrase.entryFields entries)
        (Request.ofEntries (nodeAlias.getD typeName) entries)
      = Request.ofPhrase parent (.mk typeName params nodeAlias entries) := by
  simp [gathered, opening, Pattern.ofPhrase, Request.ofPhrase, Phrase.sets, Phrase.entryFields]

/-- Registering what a phrase asks for, in the order in which it is built: what comes before the
    body, the body, and what comes after it. -/
lemma settled_ofPhrase (parent : Option String) (typeName : String) (params : List Parameter)
    (nodeAlias : Option String) (entries : List Phrase.Entry) (seen : List Pattern) :
    settled seen (Request.ofPhrase parent (.mk typeName params nodeAlias entries))
      = if (opening parent typeName params nodeAlias).lacksEdge then
          .error (.refused (.missingRelationship typeName))
        else if nodeAlias.getD typeName ∈ seen.map Pattern.name then
          .error (.refused (.duplicateAlias typeName))
        else
          gathering (seen ++ [Pattern.ofPhrase parent typeName params nodeAlias entries])
              ⟨opening parent typeName params nodeAlias, []⟩
              (fun directive => Phrase.sets directive entries) (Phrase.entryFields entries)
              (Request.ofEntries (nodeAlias.getD typeName) entries)
            >>= fun (request, known) => finish request known := by
  have hlacks : (Pattern.ofPhrase parent typeName params nodeAlias entries).lacksEdge
      = (opening parent typeName params nodeAlias).lacksEdge := rfl
  have htaken : (seen.any fun other => other.name
        == (Pattern.ofPhrase parent typeName params nodeAlias entries).name) = true
      ↔ nodeAlias.getD typeName ∈ seen.map Pattern.name := Request.any_name_eq seen _
  rw [settled, Request.ofPhrase, Request.register, hlacks]
  simp only [htaken]
  by_cases hedge : (opening parent typeName params nodeAlias).lacksEdge = true
  · rw [if_pos hedge, if_pos hedge]
    rfl
  rw [if_neg hedge, if_neg hedge]
  by_cases hname : nodeAlias.getD typeName ∈ seen.map Pattern.name
  · rw [if_pos hname, if_pos hname]
    rfl
  rw [if_neg hname, if_neg hname, gathering, gathered_opening]
  rcases Request.registerAll _ _ with ⟨known, _ | fault⟩
  · simp only [ok_bind, finish, Request.ofPhrase]
    generalize ((Pattern.ofPhrase parent typeName params nodeAlias entries).fields.isEmpty
      && (Request.ofEntries (nodeAlias.getD typeName) entries).isEmpty) = reportsNothing
    cases reportsNothing <;> rfl
  · rfl

/-- The alias of a node says no more than its name. -/
lemma buildNode_parts {nodeAlias : Option String} {aliasPairs : List Pair}
    (h : AliasPairs nodeAlias aliasPairs) (parent : Option String) (seen : List String)
    (name params : Pair) (span : Span) (entries : List Pair) :
    buildNode parent seen (name :: params :: (aliasPairs ++ [.mk .body span entries]))
      = (do
        let (pattern, known) ← begin parent seen name params nodeAlias
        let (request, known) ← buildEntries ⟨pattern, []⟩ known entries
        finish request known) := by
  cases h with
  | none => rfl
  | some hinner =>
      rw [List.singleton_append, buildNode, Pair.aliasName, ok_bind, hinner.text_eq]

mutual

/-- **What is built from the pairs of a phrase** is what registering the phrase comes to. -/
theorem buildNode_eq : ∀ (node : Phrase.Node) (pair : Pair), NodePair node pair →
    ∀ (parent : Option String) (seen : List Pattern),
      buildNode parent (seen.map Pattern.name) pair.inner
        = settled seen (Request.ofPhrase parent node)
  | .mk typeName params nodeAlias entries => by
      intro pair h parent seen
      cases h with
      | @mk _ _ _ _ name paramsPair aliasPairs inner span bodySpan htype hparams halias hentries =>
          have hbody := buildEntries_eq entries inner hentries
            ⟨opening parent typeName params nodeAlias, []⟩
            (seen ++ [Pattern.ofPhrase parent typeName params nodeAlias entries])
          rw [List.map_append, List.map_singleton] at hbody
          rw [Pair.inner_mk, buildNode_parts halias, begin_eq htype hparams, settled_ofPhrase]
          split
          · rfl
          split
          · rfl
          · simp only [ok_bind]
            exact congrArg (· >>= fun (request, known) => finish request known) hbody
termination_by structural node => node

lemma buildItem_eq : ∀ (item : Phrase.Item) (pair : Pair), ItemPair item pair →
    ∀ (sofar : Request) (seen : List Pattern),
      buildItem sofar (seen.map Pattern.name) pair
        = gathering seen sofar (fun _ => false) (Phrase.itemFields [item])
          (Request.ofItem sofar.pattern.name item)
  | .field name => by
      intro pair h sofar seen
      cases h with
      | field _ htext =>
          rw [buildItem, htext]
          rfl
  | .node node => by
      intro pair h sofar seen
      cases h with
      | @node _ pair h =>
          obtain ⟨hsymbol, -⟩ := NodePair.shaped node pair h
          obtain ⟨symbol, span, inner⟩ := pair
          obtain rfl : symbol = .node := hsymbol
          rw [buildItem, ← Pair.inner_mk .node span inner, buildNode_eq node _ h]
          exact gathering_child seen sofar _
termination_by structural item => item

lemma buildItems_eq : ∀ (items : List Phrase.Item) (pairs : List Pair),
    List.Forall₂ ItemPair items pairs → ∀ (sofar : Request) (seen : List Pattern),
      buildItems sofar (seen.map Pattern.name) pairs
        = gathering seen sofar (fun _ => false) (Phrase.itemFields items)
          (Request.ofItems sofar.pattern.name items)
  | [] => by
      rintro pairs ⟨⟩ sofar seen
      exact congrArg (fun request => Except.ok (request, _)) (gathered_nothing sofar).symm
  | item :: items => by
      rintro pairs (_ | ⟨h, hs⟩) sofar seen
      rw [buildItems, buildItem_eq item _ h, Request.itemFields_cons item items,
        Request.ofItems]
      refine gathering_bind fun known => ?_
      exact buildItems_eq items _ hs _ known
termination_by structural items => items

lemma buildEntry_eq : ∀ (entry : Phrase.Entry) (pair : Pair), EntryPair entry pair →
    ∀ (sofar : Request) (seen : List Pattern),
      buildEntry sofar (seen.map Pattern.name) pair
        = gathering seen sofar (fun directive => Phrase.sets directive [entry])
          (Phrase.entryFields [entry]) (Request.ofEntry sofar.pattern.name entry)
  | .directive directive => by
      rintro pair ⟨⟩ sofar seen
      rw [gathering, Request.ofEntry, Request.registerAll]
      cases directive <;> simp [directiveSymbol, buildEntry, Phrase.entryFields, Phrase.sets]
  | .item item => by
      intro pair h sofar seen
      cases h with
      | item h =>
          have hsymbol := (ItemPair.shaped item pair h).1
          rw [buildEntry_eq_buildItem (by simpa [or_comm] using hsymbol), buildItem_eq item pair h,
            Phrase.entryFields, Phrase.entryFields, List.append_nil]
          rfl
  | .properties items => by
      intro pair h sofar seen
      cases h with
      | properties hinner =>
          rw [buildEntry, buildItems_eq items _ hinner, Phrase.entryFields, Phrase.entryFields,
            List.append_nil]
          rfl
termination_by structural entry => entry

lemma buildEntries_eq : ∀ (entries : List Phrase.Entry) (pairs : List Pair),
    List.Forall₂ EntryPair entries pairs → ∀ (sofar : Request) (seen : List Pattern),
      buildEntries sofar (seen.map Pattern.name) pairs
        = gathering seen sofar (fun directive => Phrase.sets directive entries)
          (Phrase.entryFields entries) (Request.ofEntries sofar.pattern.name entries)
  | [] => by
      rintro pairs ⟨⟩ sofar seen
      exact congrArg (fun request => Except.ok (request, _)) (gathered_nothing sofar).symm
  | entry :: entries => by
      rintro pairs (_ | ⟨h, hs⟩) sofar seen
      rw [buildEntries, buildEntry_eq entry _ h, Request.entryFields_cons entry entries,
        Request.ofEntries]
      simp only [sets_cons _ entry entries]
      refine gathering_bind fun known => ?_
      exact buildEntries_eq entries _ hs _ known
termination_by structural entries => entries

end

/-- **What is built from the pairs of a text** whose first pair is that of a phrase. -/
theorem build_eq {node : Phrase.Node} {root : Pair} (h : NodePair node root) (pairs : List Pair) :
    build (root :: pairs) = match (Request.ofPhrase none node).register [] with
      | (_, some fault) => .error (.refused fault)
      | (_, none) => .ok (Request.ofPhrase none node) := by
  have hnode := buildNode_eq node root h none []
  rw [List.map_nil] at hnode
  rw [build, hnode, settled]
  rcases (Request.ofPhrase none node).register [] with ⟨known, _ | fault⟩ <;> rfl

end GraphRequest.Peg
