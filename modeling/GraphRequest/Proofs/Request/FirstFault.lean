import GraphRequest.Proofs.Phrase.Acceptance
import GraphRequest.Proofs.Request.Registration

/-!
# The fault is the first violation in document order

Registration goes through a tree that was gathered, carries along what it has seen and stops at
the first fault.  Which fault that is can be said of the written request alone, before anything is
gathered.

* `Phrase.Node.checks` — what is checked, in order: of each node its edge and its name, then all
  of its children, then its content.
* `Phrase.Check.fault?` — when a check fails, and with which fault.  A name is free if no node
  before it in the whole request has it; `Phrase.Node.placed_of_mem_checks` says that these are the
  nodes before it in document order.

Gathering keeps what is checked (`Request.lacksEdge_ofPhrase` and its siblings).  The invariant of
registration is that the names seen are those of the nodes before (`Request.Passed`); with it a
node is refused with the first fault among its checks, wherever it stands
(`Request.register_ofPhrase`).  `Request.ofText_first_fault` says so of a text.
-/

namespace GraphRequest

namespace Phrase

/-! ## Written nodes -/

/-- The items of an entry, in order. -/
def Entry.items : Entry → List Item
  | .directive _ => []
  | .item single => [single]
  | .properties block => block

/-- The field an item names, if it is one. -/
def Item.field? : Item → Option String
  | .field name => some name
  | .node _ => none

/-- The node an item is, if it is one. -/
def Item.node? : Item → Option Node
  | .field _ => none
  | .node child => some child

namespace Node

/-- The type of a node. -/
def typeName : Node → String
  | .mk typeName _ _ _ => typeName

/-- The parameters of a node, the edge among them. -/
def params : Node → List Parameter
  | .mk _ params _ _ => params

/-- What stands in the body of a node. -/
def entries : Node → List Entry
  | .mk _ _ _ entries => entries

/-- What a node goes by: its alias, or its type if none is written. -/
def name : Node → String
  | .mk typeName _ nodeAlias _ => nodeAlias.getD typeName

/-- The fields of a node, in the order of the text. -/
def fields (node : Node) : List String :=
  (node.entries.flatMap Entry.items).filterMap Item.field?

/-- The child nodes of a node, in the order of the text. -/
def children (node : Node) : List Node :=
  (node.entries.flatMap Entry.items).filterMap Item.node?

/-- Whether a node has no parameter `relationship`, or the last one it has is empty. -/
def lacksEdge (node : Node) : Bool :=
  (node.params.filter (·.key == edgeKey)).getLast?.all (·.value.raw.isEmpty)

mutual

/-- The nodes from a node on down, each before its children. -/
def nodes : Node → List Node
  | .mk typeName params nodeAlias entries =>
    .mk typeName params nodeAlias entries :: nodesInBody entries
termination_by structural node => node

/-- The nodes in a body. -/
def nodesInBody : List Entry → List Node
  | [] => []
  | .directive _ :: entries => nodesInBody entries
  | .item (.field _) :: entries => nodesInBody entries
  | .item (.node node) :: entries => node.nodes ++ nodesInBody entries
  | .properties items :: entries => nodesInBlock items ++ nodesInBody entries
termination_by structural entries => entries

/-- The nodes in a block. -/
def nodesInBlock : List Item → List Node
  | [] => []
  | .field _ :: items => nodesInBlock items
  | .node node :: items => node.nodes ++ nodesInBlock items
termination_by structural items => items

end

end Node

/-! ## Checks -/

/-- What is checked of a node: that it hangs on an edge, that its name is free, that it reports
    something.  `before` are the nodes that stand before it in the whole request. -/
inductive Check where
  | edge (node : Node) (before : List Node)
  | name (node : Node) (before : List Node)
  | content (node : Node)

namespace Check

/-- The fault a check finds, if it fails.  The root, before which no node stands, needs no edge. -/
def fault? : Check → Option Fault
  | .edge node before =>
    if before ≠ [] ∧ node.lacksEdge then some (.missingRelationship node.typeName) else none
  | .name node before =>
    if node.name ∈ before.map Node.name then some (.duplicateAlias node.typeName) else none
  | .content node =>
    if node.fields = [] ∧ node.children = [] then some (.noFields node.typeName) else none

/-- That the nodes before are those which precede the checked one in a list. -/
def Placed : Check → List Node → Prop
  | .edge node before, nodes => before ++ [node] <+: nodes
  | .name node before, nodes => before ++ [node] <+: nodes
  | .content _, _ => True

lemma Placed.append {check : Check} {nodes : List Node} (h : check.Placed nodes)
    (more : List Node) : check.Placed (nodes ++ more) := by
  cases check with
  | edge node before => exact h.trans (List.prefix_append nodes more)
  | name node before => exact h.trans (List.prefix_append nodes more)
  | content node => trivial

end Check

namespace Node

mutual

/-- The checks from a node on down, where `before` are the nodes before it. -/
def checks (before : List Node) : Node → List Check
  | .mk typeName params nodeAlias entries =>
    let node := .mk typeName params nodeAlias entries
    [.edge node before, .name node before] ++ checksInBody (before ++ [node]) entries
      ++ [.content node]
termination_by structural node => node

/-- The checks of the nodes in a body. -/
def checksInBody (before : List Node) : List Entry → List Check
  | [] => []
  | .directive _ :: entries => checksInBody before entries
  | .item (.field _) :: entries => checksInBody before entries
  | .item (.node node) :: entries =>
    node.checks before ++ checksInBody (before ++ node.nodes) entries
  | .properties items :: entries =>
    checksInBlock before items ++ checksInBody (before ++ nodesInBlock items) entries
termination_by structural entries => entries

/-- The checks of the nodes in a block. -/
def checksInBlock (before : List Node) : List Item → List Check
  | [] => []
  | .field _ :: items => checksInBlock before items
  | .node node :: items => node.checks before ++ checksInBlock (before ++ node.nodes) items
termination_by structural items => items

end

/-- The fault of the first check of a request that fails. -/
def firstFault? (root : Node) : Option Fault :=
  (root.checks []).findSome? Check.fault?

/-! ### Checks follow the children -/

/-- The checks of several nodes, one after the other. -/
def checksOf (before : List Node) : List Node → List Check
  | [] => []
  | node :: others => node.checks before ++ checksOf (before ++ node.nodes) others

lemma checksOf_append (before front back : List Node) :
    checksOf before (front ++ back)
      = checksOf before front ++ checksOf (before ++ front.flatMap nodes) back := by
  induction front generalizing before with
  | nil => simp [checksOf]
  | cons node front ih => simp [checksOf, ih]

lemma nodesInBlock_eq (items : List Item) :
    nodesInBlock items = (items.filterMap Item.node?).flatMap nodes := by
  induction items with
  | nil => rfl
  | cons item items ih =>
      match item with
      | .field _ => exact ih
      | .node node => exact congrArg (node.nodes ++ ·) ih

lemma nodesInBody_eq (entries : List Entry) :
    nodesInBody entries
      = ((entries.flatMap Entry.items).filterMap Item.node?).flatMap nodes := by
  induction entries with
  | nil => rfl
  | cons entry entries ih =>
      match entry with
      | .directive _ => exact ih
      | .item (.field _) => exact ih
      | .item (.node node) => exact congrArg (node.nodes ++ ·) ih
      | .properties items => simp [nodesInBody, nodesInBlock_eq, Entry.items, ih]

lemma checksInBlock_eq (before : List Node) (items : List Item) :
    checksInBlock before items = checksOf before (items.filterMap Item.node?) := by
  induction items generalizing before with
  | nil => rfl
  | cons item items ih =>
      match item with
      | .field _ => exact ih before
      | .node node => exact congrArg (node.checks before ++ ·) (ih _)

lemma checksInBody_eq (before : List Node) (entries : List Entry) :
    checksInBody before entries
      = checksOf before ((entries.flatMap Entry.items).filterMap Item.node?) := by
  induction entries generalizing before with
  | nil => rfl
  | cons entry entries ih =>
      match entry with
      | .directive _ => exact ih before
      | .item (.field _) => exact ih before
      | .item (.node node) => exact congrArg (node.checks before ++ ·) (ih _)
      | .properties items =>
          simp [checksInBody, checksInBlock_eq, nodesInBlock_eq, Entry.items, checksOf_append, ih]

lemma nodes_eq (node : Node) : node.nodes = node :: node.children.flatMap nodes := by
  cases node
  rw [nodes, nodesInBody_eq]
  rfl

/-- The checks of a node: its edge and its name, then the checks of its children in the order of
    the text, then its content. -/
lemma checks_eq (before : List Node) (node : Node) :
    node.checks before
      = [.edge node before, .name node before] ++ checksOf (before ++ [node]) node.children
        ++ [.content node] := by
  cases node
  rw [checks, checksInBody_eq]
  rfl

/-- The first fault of a node is that of its edge, else of its name, else of its children, else of
    its content. -/
lemma findSome?_checks (before : List Node) (node : Node) :
    (node.checks before).findSome? Check.fault?
      = (Check.edge node before).fault?.or ((Check.name node before).fault?.or
        (((checksOf (before ++ [node]) node.children).findSome? Check.fault?).or
          (Check.content node).fault?)) := by
  have hcons : ∀ (check : Check) (checks : List Check), (check :: checks).findSome? Check.fault?
      = check.fault?.or (checks.findSome? Check.fault?) := by
    intro check checks
    rw [List.findSome?_cons]
    cases check.fault? <;> rfl
  rw [checks_eq, List.append_assoc, List.cons_append, hcons, List.cons_append, hcons,
    List.nil_append, List.findSome?_append, hcons, List.findSome?_nil, Option.or_none]

mutual

/-- Induction over written nodes along their children. -/
@[elab_as_elim]
theorem induction {motive : Node → Prop}
    (step : ∀ node : Node, (∀ child ∈ node.children, motive child) → motive node) :
    ∀ node, motive node
  | .mk typeName params nodeAlias entries =>
    step (.mk typeName params nodeAlias entries) (inductionBody step entries)
termination_by structural node => node

lemma inductionBody {motive : Node → Prop}
    (step : ∀ node : Node, (∀ child ∈ node.children, motive child) → motive node) :
    ∀ entries : List Entry,
      ∀ child ∈ (entries.flatMap Entry.items).filterMap Item.node?, motive child
  | [] => nofun
  | .directive _ :: entries => inductionBody step entries
  | .item (.field _) :: entries => inductionBody step entries
  | .item (.node node) :: entries =>
    List.forall_mem_cons.mpr ⟨induction step node, inductionBody step entries⟩
  | .properties items :: entries => by
      rw [List.flatMap_cons, List.filterMap_append]
      exact List.forall_mem_append.mpr ⟨inductionBlock step items, inductionBody step entries⟩
termination_by structural entries => entries

lemma inductionBlock {motive : Node → Prop}
    (step : ∀ node : Node, (∀ child ∈ node.children, motive child) → motive node) :
    ∀ items : List Item, ∀ child ∈ items.filterMap Item.node?, motive child
  | [] => nofun
  | .field _ :: items => inductionBlock step items
  | .node node :: items =>
    List.forall_mem_cons.mpr ⟨induction step node, inductionBlock step items⟩
termination_by structural items => items

end

/-- The nodes a check takes for those before are just these in document order. -/
theorem placed_of_mem_checks (node : Node) (before : List Node) :
    ∀ check ∈ node.checks before, check.Placed (before ++ node.nodes) := by
  induction node using Node.induction generalizing before with
  | step node ih =>
      have hbelow : ∀ others : List Node, (∀ child ∈ others, child ∈ node.children) →
          ∀ before, ∀ check ∈ checksOf before others,
            check.Placed (before ++ others.flatMap nodes) := by
        intro others
        induction others with
        | nil => exact fun _ _ => nofun
        | cons child others ihOthers =>
            intro h before
            obtain ⟨hchild, hothers⟩ := List.forall_mem_cons.mp h
            rw [List.flatMap_cons, ← List.append_assoc]
            refine List.forall_mem_append.mpr ⟨fun check hcheck => ?_, ihOthers hothers _⟩
            exact (ih child hchild before check hcheck).append _
      have hself : before ++ [node] <+: before ++ node.nodes :=
        ⟨node.children.flatMap nodes, by simp [nodes_eq node]⟩
      have hchildren := hbelow node.children (fun _ => id) (before ++ [node])
      rw [List.append_assoc, List.singleton_append, ← nodes_eq] at hchildren
      rw [checks_eq]
      simp only [List.forall_mem_append, List.forall_mem_cons]
      exact ⟨⟨⟨hself, hself, nofun⟩, hchildren⟩, trivial, nofun⟩

end Node

/-! ## Gathering keeps what is checked -/

lemma itemFields_eq (items : List Item) : itemFields items = items.filterMap Item.field? := by
  induction items with
  | nil => rfl
  | cons item items ih =>
      match item with
      | .field name => exact congrArg (name :: ·) ih
      | .node _ => exact ih

lemma entryFields_eq (entries : List Entry) :
    entryFields entries = (entries.flatMap Entry.items).filterMap Item.field? := by
  induction entries with
  | nil => rfl
  | cons entry entries ih =>
      match entry with
      | .directive _ => exact ih
      | .item item =>
          rw [entryFields, ih, itemFields_eq, List.flatMap_cons, List.filterMap_append]
          rfl
      | .properties items =>
          rw [entryFields, ih, itemFields_eq, List.flatMap_cons, List.filterMap_append]
          rfl

end Phrase

namespace Request

open Phrase

lemma ofItems_eq (parent : String) (items : List Item) :
    ofItems parent items = (items.filterMap Item.node?).map (ofPhrase (some parent)) := by
  induction items with
  | nil => rfl
  | cons item items ih =>
      match item with
      | .field _ => exact ih
      | .node node => exact congrArg (ofPhrase (some parent) node :: ·) ih

lemma ofEntries_eq (parent : String) (entries : List Entry) :
    ofEntries parent entries
      = ((entries.flatMap Entry.items).filterMap Item.node?).map (ofPhrase (some parent)) := by
  induction entries with
  | nil => rfl
  | cons entry entries ih =>
      match entry with
      | .directive _ => exact ih
      | .item (.field _) => exact ih
      | .item (.node node) => exact congrArg (ofPhrase (some parent) node :: ·) ih
      | .properties items =>
          rw [ofEntries, ih, List.flatMap_cons, List.filterMap_append, List.map_append]
          exact congrArg (· ++ _) (ofItems_eq parent items)

variable (parent : Option String) (node : Phrase.Node)

lemma typeName_ofPhrase : (ofPhrase parent node).pattern.typeName = node.typeName := by
  cases node
  rfl

lemma name_ofPhrase : (ofPhrase parent node).pattern.name = node.name := by
  cases node
  rfl

lemma fields_ofPhrase : (ofPhrase parent node).pattern.fields = node.fields := by
  cases node
  exact entryFields_eq _

lemma children_ofPhrase :
    (ofPhrase parent node).children = node.children.map (ofPhrase (some node.name)) := by
  cases node
  exact ofEntries_eq _ _

/-- Below another node, an edge is missing where the last parameter for it is. -/
lemma lacksEdge_ofPhrase :
    (ofPhrase parent node).pattern.lacksEdge = (parent.isSome && node.lacksEdge) := by
  obtain ⟨typeName, params, nodeAlias, entries⟩ := node
  rw [ofPhrase, Pattern.lacksEdge, Node.lacksEdge, Node.params]
  cases parent with
  | none => simp [Pattern.ofPhrase, Pattern.isRoot]
  | some parent =>
      simp only [Pattern.ofPhrase, Option.isSome_some, Bool.true_and, Pattern.isRoot,
        Option.isNone_some, Bool.not_false]
      cases (params.filter (·.key == edgeKey)).getLast? <;> rfl

lemma names_ofPhrase : (ofPhrase parent node).nodes.map (fun node => node.pattern.name)
    = node.nodes.map Node.name := by
  induction node using Node.induction generalizing parent with
  | step node ih =>
      have hbelow : ∀ others : List Phrase.Node, (∀ child ∈ others, child ∈ node.children) →
          (nodesOf (others.map (ofPhrase (some node.name)))).map (fun node => node.pattern.name)
            = (others.flatMap Node.nodes).map Node.name := by
        intro others
        induction others with
        | nil => exact fun _ => rfl
        | cons child others ihOthers =>
            intro h
            obtain ⟨hchild, hothers⟩ := List.forall_mem_cons.mp h
            simp [ih child hchild, ihOthers hothers]
      rw [nodes_eq, Node.nodes_eq, List.map_cons, List.map_cons, name_ofPhrase, children_ofPhrase,
        hbelow _ fun _ => id]

/-! ## Registration stops at the first fault -/

/-- Registration in terms of what is checked. -/
lemma register_eq (seen : List Pattern) (request : Request) :
    request.register seen
      = if request.pattern.lacksEdge then
          (seen, some (.missingRelationship request.pattern.typeName))
        else if request.pattern.name ∈ seen.map Pattern.name then
          (seen, some (.duplicateAlias request.pattern.typeName))
        else match registerAll (seen ++ [request.pattern]) request.children with
          | (known, some fault) => (known, some fault)
          | (known, none) =>
            if request.pattern.fields = [] ∧ request.children = [] then
              (known, some (.noFields request.pattern.typeName))
            else (known, none) := by
  obtain ⟨pattern, children⟩ := request
  rw [register]
  dsimp only
  rcases registerAll (seen ++ [pattern]) children with ⟨known, _ | fault⟩
  · simp only [any_name_eq, Bool.and_eq_true, List.isEmpty_iff]
  · simp only [any_name_eq]

/-- Registration reports the fault of the edge, else of the name, else of the children, else of the
    content. -/
lemma snd_register (seen : List Pattern) (request : Request) :
    (request.register seen).2
      = if request.pattern.lacksEdge then some (.missingRelationship request.pattern.typeName)
        else if request.pattern.name ∈ seen.map Pattern.name then
          some (.duplicateAlias request.pattern.typeName)
        else (registerAll (seen ++ [request.pattern]) request.children).2.or <|
          if request.pattern.fields = [] ∧ request.children = [] then
            some (.noFields request.pattern.typeName)
          else none := by
  rw [register_eq]
  rcases registerAll (seen ++ [request.pattern]) request.children with ⟨known, _ | fault⟩
  · split_ifs <;> rfl
  · split_ifs <;> rfl

/-- What registration has gone through, as the nodes that stand before the next one in the text. -/
structure Passed (seen : List Pattern) (before : List Phrase.Node) : Prop where
  names : seen.map Pattern.name = before.map Node.name
  nodup : (seen.map Pattern.name).Nodup

lemma Passed.add {seen : List Pattern} {before : List Phrase.Node} (h : Passed seen before)
    {pattern : Pattern} {node : Phrase.Node} (hname : pattern.name = node.name)
    (hnew : node.name ∉ before.map Node.name) : Passed (seen ++ [pattern]) (before ++ [node]) where
  names := by simp [h.names, hname]
  nodup := by
    rw [List.map_append, List.nodup_append_comm]
    exact List.nodup_cons.mpr ⟨by rwa [h.names, hname], h.nodup⟩

/-- A tree that is registered was gone through to its end. -/
lemma Passed.register {seen : List Pattern} {before : List Phrase.Node} (h : Passed seen before)
    {parent : Option String} {node : Phrase.Node} {known : List Pattern}
    (hregister : (ofPhrase parent node).register seen = (known, none)) :
    Passed known (before ++ node.nodes) := by
  obtain ⟨rfl, -, hnodup⟩ := (register_eq_iff _ _ _ h.nodup).mp hregister
  refine ⟨?_, hnodup⟩
  rw [List.map_append, List.map_append, h.names, ← names_ofPhrase parent node, List.map_map]
  rfl

lemma registerAll_ofPhrase {parent : String} : ∀ (nodes : List Phrase.Node),
    (∀ node ∈ nodes, ∀ seen before, Passed seen before → before ≠ [] →
      ((ofPhrase (some parent) node).register seen).2
        = (node.checks before).findSome? Check.fault?) →
    ∀ seen before, Passed seen before → before ≠ [] →
      (registerAll seen (nodes.map (ofPhrase (some parent)))).2
        = (Node.checksOf before nodes).findSome? Check.fault?
  | [] => fun _ _ _ _ _ => rfl
  | node :: nodes => by
      intro h seen before hpassed hbefore
      obtain ⟨hnode, hnodes⟩ := List.forall_mem_cons.mp h
      have hfirst := hnode seen before hpassed hbefore
      rw [List.map_cons, registerAll, Node.checksOf, List.findSome?_append, ← hfirst]
      rcases hregister : (ofPhrase (some parent) node).register seen with ⟨known, _ | fault⟩
      · rw [Option.none_or]
        exact registerAll_ofPhrase nodes hnodes known _ (hpassed.register hregister)
          (List.append_ne_nil_of_left_ne_nil hbefore _)
      · rfl

/-- **Registration stops at the first fault**, wherever in a request the node stands. -/
theorem register_ofPhrase (node : Phrase.Node) (parent : Option String) (seen : List Pattern)
    (before : List Phrase.Node) (hpassed : Passed seen before)
    (hroot : parent.isSome = true ↔ before ≠ []) :
    ((ofPhrase parent node).register seen).2 = (node.checks before).findSome? Check.fault? := by
  induction node using Node.induction generalizing parent seen before with
  | step node ih =>
      rw [snd_register, lacksEdge_ofPhrase, typeName_ofPhrase, name_ofPhrase, fields_ofPhrase,
        children_ofPhrase, hpassed.names, Node.findSome?_checks]
      simp only [Check.fault?, Bool.and_eq_true, hroot, List.map_eq_nil_iff]
      by_cases hedge : before ≠ [] ∧ node.lacksEdge = true
      · rw [if_pos hedge, if_pos hedge, Option.some_or]
      rw [if_neg hedge, if_neg hedge, Option.none_or]
      by_cases hname : node.name ∈ before.map Node.name
      · rw [if_pos hname, if_pos hname, Option.some_or]
      -- the node is taken in, so all that stands below it comes after it
      rw [if_neg hname, if_neg hname, Option.none_or]
      congr 1
      refine registerAll_ofPhrase node.children (fun child hchild seen before hpassed hbefore => ?_)
        _ _ (hpassed.add (name_ofPhrase parent node) hname) (by simp)
      exact ih child hchild _ seen before hpassed (by simp [hbefore])

/-! ## Reading a text -/

/-- **The fault is the first violation in document order.**  A text that the grammar does not derive
    is malformed, whatever else may be wrong with it.  One that the grammar derives is refused with
    the fault of the first check that fails, and is accepted if none does. -/
theorem ofText_first_fault (text : String) :
    ((¬ ∃ derived : Derivation.Node, derived.Derives text) →
        ∃ diagnosis, (ofText text).2 = .error (.malformed diagnosis))
      ∧ ∀ derived : Derivation.Node, derived.Derives text →
          (ofText text).2 = match derived.settle.phrase.firstFault? with
            | some fault => .error fault
            | none => .ok (ofPhrase none derived.settle.phrase) := by
  refine ⟨fun hnone => ?_, fun derived hderives => ?_⟩
  · rw [ofText]
    cases hread : (Phrase.request (Token.ofText text)).value with
    | none => exact ⟨_, rfl⟩
    | some read =>
        obtain ⟨derived, hderives, -⟩ := exists_derives_of_value hread
        exact absurd ⟨derived, hderives⟩ hnone
  · have hfault := register_ofPhrase derived.settle.phrase none [] [] ⟨rfl, List.nodup_nil⟩
      (by simp)
    simp only [ofText, value_request_of_derives hderives, Phrase.Node.firstFault?, ← hfault]
    rcases (ofPhrase none derived.settle.phrase).register [] with ⟨known, _ | fault⟩ <;> rfl

/-- Of an alias taken above, a missing edge and two empty bodies the alias comes first, and a brace
    too many comes before all else. -/
theorem first_fault_among_several :
    (∃ derived : Derivation.Node,
        derived.Derives ("A() \x7b x, B(relationship: \"r\") \x7b "
          ++ "C(relationship: \"r\") as A \x7b\x7d, D() \x7b\x7d \x7d \x7d")
        ∧ (ofText ("A() \x7b x, B(relationship: \"r\") \x7b "
            ++ "C(relationship: \"r\") as A \x7b\x7d, D() \x7b\x7d \x7d \x7d")).2
          = .error (.duplicateAlias "C"))
      ∧ (¬ ∃ derived : Derivation.Node, derived.Derives "A() \x7b B() \x7b\x7d \x7d \x7d")
      ∧ ∃ diagnosis,
          (ofText "A() \x7b B() \x7b\x7d \x7d \x7d").2 = .error (.malformed diagnosis) := by
  have hderives : (Derivation.Node.mk "A" [] none (.filled (.item (.field "x")) [.item (.node
      (.mk "B" [⟨"relationship", .string "r"⟩] none (.filled (.item (.node
        (.mk "C" [⟨"relationship", .string "r"⟩] (some "A") .empty)))
        [.item (.node (.mk "D" [] none .empty))] false)))] false)).Derives
      ("A() \x7b x, B(relationship: \"r\") \x7b "
        ++ "C(relationship: \"r\") as A \x7b\x7d, D() \x7b\x7d \x7d \x7d") :=
    Derivation.derives_iff.mpr (by decide +kernel)
  have hnone : ¬ ∃ derived : Derivation.Node,
      derived.Derives "A() \x7b B() \x7b\x7d \x7d \x7d" := by
    rintro ⟨derived, hderives⟩
    have hread := value_request_of_derives hderives
    have htokens : Token.ofText "A() \x7b B() \x7b\x7d \x7d \x7d"
        = [.ident "A", .punctuation .leftParen, .punctuation .rightParen, .punctuation .leftBrace,
          .ident "B", .punctuation .leftParen, .punctuation .rightParen, .punctuation .leftBrace,
          .punctuation .rightBrace, .punctuation .rightBrace, .punctuation .rightBrace] := by
      decide +kernel
    rw [htokens] at hread
    exact nomatch hread
  have hfault := (ofText_first_fault _).2 _ hderives
  exact ⟨⟨_, hderives, hfault.trans rfl⟩, hnone, (ofText_first_fault _).1 hnone⟩

end Request

end GraphRequest
