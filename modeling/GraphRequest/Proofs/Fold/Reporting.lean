import GraphRequest.Proofs.Fold.Grouping
import GraphRequest.Proofs.Request.WellFormed

/-!
# What a record holds

The names in a record come from the fields, the directives and the children of a node, and what was
requested is inserted in this order.  Registration keeps only the names of nodes apart, so a field
may have the name of a directive or of a child, and a child that of a directive.  Then two values
were requested under one name, and the later one is all that is reported.

* `Request.EntityRows` — the rows of an entity of a node, anywhere in the tree.  The first of them
  created it.
* `Request.Reports` — the records of a node in an answer, anywhere in the tree.
* `Request.Holds` — what a record holds of the rows of its entity: the arrays of all children, what
  the directives ask for unless a child goes by their word, and the fields that have neither the
  name of a child nor the word of a directive in use.
* `Request.holds_of_reports` — this is what every record in every answer holds.

`Request.reduce_gene_called_name` is an answer in which a field is lost.
-/

namespace GraphRequest

namespace Pattern

variable (pattern : Pattern) (group : List Row)

/-- The value of a field, as the row that created the entity has it. -/
def fieldValue (field : String) : Json :=
  ((group.headD []).lookup (pattern.fieldColumn field)).getD .null

/-- What a directive asks for: the labels and the entity as a whole as the row that created it has
    them, and the different edges of all its rows. -/
def directiveValue : Directive → Json
  | .labels => ((group.headD []).lookup pattern.labelsColumn).getD (.array [])
  | .relationships =>
    .array <| if pattern.isRoot then []
      else Json.distinct (group.filterMap fun row => row.present? pattern.edgeColumn)
  | .graph => ((group.headD []).lookup pattern.graphColumn).getD .null

/-- What a directive adds to a record. -/
def directiveMembers (directive : Directive) : List (String × Json) :=
  if pattern.asksFor directive then [(directive.word, pattern.directiveValue group directive)]
  else []

lemma membersOf_eq : pattern.membersOf group
    = pattern.fields.map (fun field => (field, pattern.fieldValue group field))
      ++ pattern.directiveMembers group .labels ++ pattern.directiveMembers group .relationships
      ++ pattern.directiveMembers group .graph :=
  rfl

/-- Two directives have two words. -/
lemma word_injective : Function.Injective Directive.word := by
  intro directive other h
  cases directive <;> cases other <;> first | rfl | simp [Directive.word] at h

lemma lookup_directiveMembers_self {directive : Directive} (h : pattern.asksFor directive = true) :
    (pattern.directiveMembers group directive).reverse.lookup directive.word
      = some (pattern.directiveValue group directive) := by
  simp [directiveMembers, h]

/-- A name that a directive does not ask for is not what it adds. -/
lemma lookup_directiveMembers {directive : Directive} {name : String}
    (h : pattern.asksFor directive = true → name ≠ directive.word) :
    (pattern.directiveMembers group directive).reverse.lookup name = none := by
  rw [directiveMembers]
  split
  · rename_i hasks
    simp [List.lookup_cons, beq_false_of_ne (h hasks)]
  · rfl

/-- The values of an entity are looked up from the last one on: the directives first, then the
    fields. -/
lemma lookup_reverse_membersOf (name : String) : (pattern.membersOf group).reverse.lookup name
    = ((pattern.directiveMembers group .graph).reverse.lookup name).or
      (((pattern.directiveMembers group .relationships).reverse.lookup name).or
        (((pattern.directiveMembers group .labels).reverse.lookup name).or
          ((pattern.fields.reverse.map fun field =>
            (field, pattern.fieldValue group field)).lookup name))) := by
  simp only [membersOf_eq, List.reverse_append, List.lookup_append, List.map_reverse]

variable {pattern group}

lemma lookup_directive_membersOf {directive : Directive} (h : pattern.asksFor directive = true) :
    (pattern.membersOf group).reverse.lookup directive.word
      = some (pattern.directiveValue group directive) := by
  have hself := pattern.lookup_directiveMembers_self group h
  have hothers : ∀ other : Directive, other ≠ directive →
      (pattern.directiveMembers group other).reverse.lookup directive.word = none :=
    fun other hne => pattern.lookup_directiveMembers group fun _ hword =>
      hne (word_injective hword).symm
  rw [lookup_reverse_membersOf]
  cases directive with
  | labels =>
      rw [hothers .graph (by decide), hothers .relationships (by decide), hself]
      rfl
  | relationships =>
      rw [hothers .graph (by decide), hself]
      rfl
  | graph =>
      rw [hself]
      rfl

lemma lookup_field_membersOf {field : String} (h : field ∈ pattern.fields)
    (hwords : ∀ directive, pattern.asksFor directive = true → field ≠ directive.word) :
    (pattern.membersOf group).reverse.lookup field = some (pattern.fieldValue group field) := by
  have hnone : ∀ directive,
      (pattern.directiveMembers group directive).reverse.lookup field = none :=
    fun directive => pattern.lookup_directiveMembers group (hwords directive)
  rw [lookup_reverse_membersOf, hnone, hnone, hnone,
    Entries.lookup_map_self _ _ (List.mem_reverse.mpr h)]
  rfl

end Pattern

namespace Request

variable (request : Request)

/-- The names of the children. -/
def childNames : List String :=
  request.children.map fun child => child.pattern.name

/-- The record of the rows of an entity. -/
def recordOf (group : List Row) : Record :=
  Entries.insertAll [] (request.pattern.membersOf group ++ regroupBelow request.children group)

/-- The rows of an entity of a node.  Those of an entity of the root are a group of all rows, those
    of an entity below another one a group of the rows of that one. -/
inductive EntityRows (rows : List Row) : Request → List Row → Prop
  | root {key : String} {group : List Row} (hgroup : (key, group) ∈ request.pattern.groups rows) :
      EntityRows rows request group
  | child {node child : Request} {key : String} {group below : List Row}
      (habove : EntityRows rows node group) (hchild : child ∈ node.children)
      (hgroup : (key, below) ∈ child.pattern.groups group) : EntityRows rows child below

/-- The records of a node in an answer.  Those of the root are the answer, those of a child are in
    the arrays that the records of the node above hold under its name. -/
inductive Reports (rows : List Row) : Request → Record → Prop
  | root {record : Record} (hrecord : record ∈ request.reduce rows) : Reports rows request record
  | child {node child : Request} {record below : Record} {found : List Json}
      (habove : Reports rows node record) (hchild : child ∈ node.children)
      (hfound : record.lookup child.pattern.name = some (.array found))
      (hbelow : .object below ∈ found) : Reports rows child below

/-- What a record holds of the rows of its entity. -/
structure Holds (group : List Row) (record : Record) : Prop where
  children : ∀ child ∈ request.children,
    record.lookup child.pattern.name = some (.array ((child.regroup group).map .object))
  directives : ∀ directive, request.pattern.asksFor directive = true →
    directive.word ∉ request.childNames →
      record.lookup directive.word = some (request.pattern.directiveValue group directive)
  fields : ∀ field ∈ request.pattern.fields, field ∉ request.childNames →
    (∀ directive, request.pattern.asksFor directive = true → field ≠ directive.word) →
      record.lookup field = some (request.pattern.fieldValue group field)

variable {request}

/-! ## The record of an entity -/

lemma keys_regroupBelow (children : List Request) (rows : List Row) :
    Entries.keys (regroupBelow children rows) = children.map fun child => child.pattern.name := by
  induction children with
  | nil => rfl
  | cons child children ih => rw [regroupBelow, Entries.keys_cons, ih, List.map_cons]

lemma mem_regroupBelow {child : Request} {children : List Request} (h : child ∈ children)
    (rows : List Row) :
    (child.pattern.name, .array ((child.regroup rows).map .object))
      ∈ regroupBelow children rows := by
  induction children with
  | nil => simp at h
  | cons other children ih =>
      rw [regroupBelow]
      rcases List.mem_cons.mp h with rfl | h
      · exact List.mem_cons_self
      · exact List.mem_cons_of_mem _ (ih h)

/-- A record is looked up from the last value on: the arrays of the children first. -/
lemma lookup_recordOf (group : List Row) (name : String) : (request.recordOf group).lookup name
    = ((regroupBelow request.children group).reverse.lookup name).or
      ((request.pattern.membersOf group).reverse.lookup name) := by
  rw [recordOf, Entries.lookup_insertAll, List.reverse_append, List.lookup_append]
  exact Option.or_none

/-- Where no child goes by a name, the record holds the entity's own value. -/
lemma lookup_recordOf_of_notMem {name : String} (h : name ∉ request.childNames)
    (group : List Row) :
    (request.recordOf group).lookup name
      = (request.pattern.membersOf group).reverse.lookup name := by
  have hnone : (regroupBelow request.children group).reverse.lookup name = none := by
    refine Entries.lookup_eq_none_iff.mpr fun hmem => h ?_
    rw [Entries.keys, List.map_reverse, List.mem_reverse] at hmem
    rwa [childNames, ← keys_regroupBelow request.children group]
  rw [lookup_recordOf, hnone, Option.none_or]

/-- The record of an entity holds what it should, if no two children share a name. -/
lemma holds_recordOf (hnames : request.childNames.Nodup) (group : List Row) :
    request.Holds group (request.recordOf group) where
  children child hchild := by
    have hkeys : (Entries.keys (regroupBelow request.children group).reverse).Nodup := by
      rw [Entries.keys, List.map_reverse, List.nodup_reverse, ← Entries.keys, keys_regroupBelow]
      exact hnames
    have hmem := List.mem_reverse.mpr (mem_regroupBelow hchild group)
    rw [lookup_recordOf, Entries.lookup_of_mem hkeys hmem]
    rfl
  directives directive hasks hfree := by
    rw [lookup_recordOf_of_notMem hfree, Pattern.lookup_directive_membersOf hasks]
  fields field hfield hfree hwords := by
    rw [lookup_recordOf_of_notMem hfree, Pattern.lookup_field_membersOf hfield hwords]

/-! ## The records of an answer -/

lemma exists_group_of_mem_regroup {rows : List Row} {record : Record}
    (h : record ∈ request.regroup rows) :
    ∃ key group, (key, group) ∈ request.pattern.groups rows ∧ record = request.recordOf group := by
  obtain ⟨pattern, children⟩ := request
  rw [regroup] at h
  obtain ⟨⟨key, group⟩, hgroup, rfl⟩ := List.mem_map.mp h
  exact ⟨key, group, hgroup, rfl⟩

lemma children_sublist_nodesOf (requests : List Request) : requests.Sublist (nodesOf requests) := by
  induction requests with
  | nil => exact .slnil
  | cons request requests ih =>
      rw [nodesOf_cons, nodes_eq]
      exact (ih.trans (List.sublist_append_right _ _)).cons_cons request

lemma nodes_sublist_nodesOf {child : Request} {children : List Request} (h : child ∈ children) :
    child.nodes.Sublist (nodesOf children) := by
  obtain ⟨before, after, rfl⟩ := List.append_of_mem h
  rw [nodesOf_append, nodesOf_cons]
  exact (List.sublist_append_left _ _).trans (List.sublist_append_right _ _)

/-- The nodes below a node stand among all nodes in the same order. -/
lemma nodes_sublist {node : Request} (h : node ∈ request.nodes) :
    node.nodes.Sublist request.nodes := by
  induction request using Request.induction with
  | node pattern children ih =>
      rcases mem_nodes.mp h with rfl | h
      · exact List.Sublist.refl _
      · obtain ⟨child, hchild, hnode⟩ := mem_nodesOf.mp h
        rw [nodes_eq ⟨pattern, children⟩]
        exact ((ih child hchild hnode).trans (nodes_sublist_nodesOf hchild)).cons _

lemma WellFormed.nodup_childNames (hwell : request.WellFormed) {node : Request}
    (h : node ∈ request.nodes) : node.childNames.Nodup := by
  have hchildren : node.children.Sublist node.nodes := by
    rw [nodes_eq]
    exact (children_sublist_nodesOf node.children).cons node
  exact hwell.names.sublist ((hchildren.trans (nodes_sublist h)).map _)

lemma Reports.mem_nodes {rows : List Row} {node : Request} {record : Record}
    (h : request.Reports rows node record) : node ∈ request.nodes := by
  induction h with
  | root => exact mem_nodes_self request
  | child _ hchild _ _ ih => exact mem_nodes_of_mem_children ih hchild

/-- Every record in an answer is that of the rows of an entity.  Going down one level, the record
    above holds the array of the child, so what is found there are the records of the groups. -/
lemma Reports.exists_entityRows (hwell : request.WellFormed) {rows : List Row} {node : Request}
    {record : Record} (h : request.Reports rows node record) :
    ∃ group, request.EntityRows rows node group ∧ record = node.recordOf group := by
  induction h with
  | root hrecord =>
      rw [reduce, fold_eq_gather, records_gather] at hrecord
      obtain ⟨key, group, hgroup, rfl⟩ := exists_group_of_mem_regroup hrecord
      exact ⟨group, .root hgroup, rfl⟩
  | @child node child record below found habove hchild hfound hbelow ih =>
      obtain ⟨group, hrows, rfl⟩ := ih
      have hholds := holds_recordOf (hwell.nodup_childNames habove.mem_nodes) group
      rw [hholds.children child hchild, Option.some.injEq, Json.array.injEq] at hfound
      obtain ⟨record, hrecord, heq⟩ := List.mem_map.mp (hfound ▸ hbelow)
      obtain rfl := Json.object.inj heq
      obtain ⟨key, group', hgroup, rfl⟩ := exists_group_of_mem_regroup hrecord
      exact ⟨group', .child hrows hchild hgroup, rfl⟩

/-- **What the records of an answer hold.**  In every answer to an accepted request every record, at
    every depth, holds the arrays of all children of its node, and of its other values those under
    whose name nothing else was requested that comes later. -/
theorem holds_of_reports (h : request.Accepted) {rows : List Row} {node : Request}
    {record : Record} (hreports : request.Reports rows node record) :
    ∃ group, request.EntityRows rows node group ∧ node.Holds group record := by
  have hwell := h.wellFormed
  obtain ⟨group, hrows, rfl⟩ := hreports.exists_entityRows hwell
  exact ⟨group, hrows, holds_recordOf (hwell.nodup_childNames hreports.mem_nodes) group⟩

/-- The names in the records of a gene and its traits are all different, so these hold everything
    that was requested. -/
theorem holds_of_reports_gene_with_traits :
    ∃ (request node : Request) (row : Row) (record : Record), request.Accepted
      ∧ node.pattern.name = "t" ∧ request.Reports [row] node record
      ∧ ∃ group, request.EntityRows [row] node group
        ∧ record.lookup "p" = some (node.pattern.fieldValue group "p")
        ∧ record.lookup "relationships"
          = some (node.pattern.directiveValue group .relationships) := by
  let trait : Request :=
    ⟨⟨"Trait", "t", [], some ":has", false, true, false, ["p"], some "Gene"⟩, []⟩
  let request : Request :=
    ⟨⟨"Gene", "Gene", [], none, false, false, false, ["name"], none⟩, [trait]⟩
  let row : Row := [("__Geneid", .bool true), ("__tid", .bool true), ("__tr", .string "e"),
    ("t.p", .string "abc")]
  have haccepted : request.Accepted := ⟨_, ofText_gene_with_traits⟩
  have hreports : request.Reports [row] trait
      [("p", .string "abc"), ("relationships", .array [.string "e"])] :=
    .child (.root (.head _)) (.head _) rfl (.head _)
  obtain ⟨group, hrows, hholds⟩ := holds_of_reports haccepted hreports
  exact ⟨request, trait, row, _, haccepted, rfl, hreports, group, hrows,
    hholds.fields "p" (by decide) (by decide) (by rintro (_ | _ | _) <;> decide),
    hholds.directives .relationships (by decide) (by decide)⟩

/-- A gene whose traits are called `name` like its field is accepted.  Its row has a value for the
    field, but its record has no place for it. -/
theorem reduce_gene_called_name :
    ∃ (request : Request) (row : Row),
      (ofText "Gene() \x7b name, Trait(relationship: \":has\") as name \x7b p \x7d \x7d").2
          = .ok request
      ∧ request.pattern.fields = ["name"] ∧ row.lookup "Gene.name" = some (.string "g")
      ∧ request.reduce [row] = [[("name", .array [.object [("p", .null)]])]] := by
  have htokens : Token.ofText
      "Gene() \x7b name, Trait(relationship: \":has\") as name \x7b p \x7d \x7d"
      = [.ident "Gene", .punctuation .leftParen, .punctuation .rightParen, .punctuation .leftBrace,
        .ident "name", .punctuation .comma, .ident "Trait", .punctuation .leftParen,
        .ident "relationship", .punctuation .colon, .string ":has", .punctuation .rightParen,
        .ident "as", .ident "name", .punctuation .leftBrace, .ident "p", .punctuation .rightBrace,
        .punctuation .rightBrace] := by
    decide +kernel
  refine ⟨⟨⟨"Gene", "Gene", [], none, false, false, false, ["name"], none⟩,
      [⟨⟨"Trait", "name", [], some ":has", false, false, false, ["p"], some "Gene"⟩, []⟩]⟩,
    [("__Geneid", .bool true), ("Gene.name", .string "g"), ("__nameid", .bool true)], ?_, rfl,
    rfl, rfl⟩
  rw [ofText, htokens]
  rfl

end Request

end GraphRequest
