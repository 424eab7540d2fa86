import GraphRequest.Proofs.Request.WellFormed
import GraphRequest.Proofs.Text.Parting

/-!
# The columns of a request

Every column is named after the node it belongs to.  The names are made by putting texts before
and after the name of the node, so that nothing but the names themselves keeps the columns of
different nodes apart.

* `Pattern.columns` — the columns a node is reported with.
* `Pattern.column_injective` — a column tells the name of its node and what it holds: a name has no
  point, so a field's column is no generated name, and generated names end in different letters.
* `Request.columns` — the columns of a whole tree.
* `Request.Apart` — no two nodes of a tree share a column, which is so if the nodes have different
  names (`Request.WellFormed.apart`).
* **`Request.column_eq_iff`** — in an accepted tree every column has a name of its own.
-/

namespace GraphRequest

/-- What a column holds. -/
inductive Column where
  | id
  | field (name : String)
  | labels
  | graph
  | edge
deriving DecidableEq

namespace Pattern

variable (pattern : Pattern)

/-- The column that holds something of a node. -/
def column : Column → String
  | .id => pattern.idColumn
  | .field name => pattern.fieldColumn name
  | .labels => pattern.labelsColumn
  | .graph => pattern.graphColumn
  | .edge => pattern.edgeColumn

/-- What a node is reported with. -/
def held : List Column :=
  [.id] ++ pattern.fields.map .field ++ (if pattern.labels then [.labels] else [])
    ++ (if pattern.graph then [.graph] else []) ++ (if pattern.isRoot then [] else [.edge])

/-- The columns a node is reported with. -/
def columns : List String :=
  pattern.held.map pattern.column

variable {pattern}

lemma id_mem_columns : pattern.idColumn ∈ pattern.columns :=
  List.mem_map.mpr ⟨.id, by simp [held], rfl⟩

lemma field_mem_columns {field : String} (h : field ∈ pattern.fields) :
    pattern.fieldColumn field ∈ pattern.columns :=
  List.mem_map.mpr ⟨.field field, by simp [held, h], rfl⟩

lemma labels_mem_columns (h : pattern.labels = true) : pattern.labelsColumn ∈ pattern.columns :=
  List.mem_map.mpr ⟨.labels, by simp [held, h], rfl⟩

lemma graph_mem_columns (h : pattern.graph = true) : pattern.graphColumn ∈ pattern.columns :=
  List.mem_map.mpr ⟨.graph, by simp [held, h], rfl⟩

lemma edge_mem_columns (h : pattern.isRoot = false) : pattern.edgeColumn ∈ pattern.columns :=
  List.mem_map.mpr ⟨.edge, by simp [held, h], rfl⟩

end Pattern

/-! ## Columns do not collide -/

namespace Column

/-- What stands before the name of the node. -/
def lead : Column → String
  | .field _ => ""
  | _ => "__"

/-- What stands after the name of the node. -/
def tail : Column → String
  | .id => "id"
  | .field name => "." ++ name
  | .labels => "labels"
  | .graph => "graph"
  | .edge => "r"

lemma tail_ne_nil (column : Column) : column.tail.toList ≠ [] := by
  cases column <;> simp [tail]

end Column

lemma IsName.point_not_mem {name : String} (h : IsName name) : '.' ∉ name.toList :=
  fun hmem => absurd (h.all _ hmem) (by decide)

namespace Pattern

lemma column_eq (pattern : Pattern) (column : Column) :
    pattern.column column = column.lead ++ pattern.name ++ column.tail := by
  cases column with
  | field name => simp [Pattern.column, fieldColumn, Column.lead, Column.tail, String.append_assoc]
  | _ => rfl

/-- Only the columns of fields have a point. -/
lemma point_mem_column_iff {pattern : Pattern} (h : IsName pattern.name) (column : Column) :
    '.' ∈ (pattern.column column).toList ↔ ∃ name, column = .field name := by
  rw [column_eq]
  cases column <;> simp [Column.lead, Column.tail, h.point_not_mem]

/-- **Columns do not collide.**  A column tells the name of its node and what it holds. -/
theorem column_injective {pattern other : Pattern} {column column' : Column}
    (hname : IsName pattern.name) (hother : IsName other.name)
    (h : pattern.column column = other.column column') :
    pattern.name = other.name ∧ column = column' := by
  have hpoint := point_mem_column_iff hname column
  rw [h, point_mem_column_iff hother column'] at hpoint
  rw [column_eq, column_eq] at h
  have htext := congrArg String.toList h
  simp only [String.toList_append] at htext
  by_cases hfield : ∃ name, column = .field name
  · obtain ⟨field', rfl⟩ := hpoint.mpr hfield
    obtain ⟨field, rfl⟩ := hfield
    have hsplit : pattern.name.toList ++ '.' :: field.toList
        = other.name.toList ++ '.' :: field'.toList := by
      simpa [Column.lead, Column.tail] using htext
    obtain ⟨hnames, hfields⟩ := parts_eq_at hname.point_not_mem hother.point_not_mem hsplit
    rw [String.toList_inj.mp hnames, String.toList_inj.mp hfields]
    exact ⟨rfl, rfl⟩
  · -- Generated names end in different letters.
    have hfield' := mt hpoint.mp hfield
    have hlast := congrArg List.getLast? htext
    rw [List.getLast?_append_of_ne_nil _ (Column.tail_ne_nil column),
      List.getLast?_append_of_ne_nil _ (Column.tail_ne_nil column')] at hlast
    obtain rfl : column = column' := by
      cases column <;> cases column' <;> simp_all [Column.tail]
    have hlead := List.append_cancel_right htext
    exact ⟨String.toList_inj.mp (List.append_cancel_left hlead), rfl⟩

lemma column_injective_left {pattern : Pattern} (hname : IsName pattern.name) :
    Function.Injective pattern.column :=
  fun _ _ h => (column_injective hname hname h).2

/-- Nodes with different names share no column. -/
lemma disjoint_columns {pattern other : Pattern} (hname : IsName pattern.name)
    (hother : IsName other.name) (h : pattern.name ≠ other.name) :
    pattern.columns.Disjoint other.columns := by
  intro text hmem hmem'
  obtain ⟨column, -, rfl⟩ := List.mem_map.mp hmem
  obtain ⟨column', -, heq⟩ := List.mem_map.mp hmem'
  exact h (column_injective hname hother heq.symm).1

end Pattern

namespace Request

/-- The columns of all nodes. -/
def columns (request : Request) : List String :=
  request.nodes.flatMap fun node => node.pattern.columns

lemma columns_eq (pattern : Pattern) (children : List Request) :
    columns ⟨pattern, children⟩ = pattern.columns ++ children.flatMap columns := by
  have hbelow : ∀ requests : List Request,
      (nodesOf requests).flatMap (fun node => node.pattern.columns) = requests.flatMap columns := by
    intro requests
    induction requests with
    | nil => rfl
    | cons request requests ih => simp [ih, columns]
  rw [columns, nodes_eq, List.flatMap_cons, hbelow]

lemma own_subset_columns (request : Request) : request.pattern.columns ⊆ request.columns := by
  obtain ⟨pattern, children⟩ := request
  rw [columns_eq]
  exact List.subset_append_left _ _

lemma child_subset_columns (request : Request) {child : Request} (h : child ∈ request.children) :
    child.columns ⊆ request.columns := by
  obtain ⟨pattern, children⟩ := request
  rw [columns_eq]
  exact fun column hmem => List.mem_append_right _ (List.mem_flatMap.mpr ⟨child, h, hmem⟩)

lemma pattern_subset_columns {request node : Request} (h : node ∈ request.nodes) :
    node.pattern.columns ⊆ request.columns :=
  fun _ hmem => List.mem_flatMap.mpr ⟨node, h, hmem⟩

/-- That no two nodes share a column. -/
def Apart (nodes : List Request) : Prop :=
  nodes.Pairwise fun node other => node.pattern.columns.Disjoint other.pattern.columns

/-- That no node of one list shares a column with one of another. -/
def NodesApart (nodes others : List Request) : Prop :=
  ∀ node ∈ nodes, ∀ other ∈ others, node.pattern.columns.Disjoint other.pattern.columns

lemma NodesApart.symm {nodes others : List Request} (h : NodesApart nodes others) :
    NodesApart others nodes :=
  fun other hother node hnode => List.disjoint_symm (h node hnode other hother)

lemma NodesApart.disjoint_columns {nodes others : List Request} (h : NodesApart nodes others)
    {request : Request} (hsub : request.nodes ⊆ nodes) :
    ∀ other ∈ others, request.columns.Disjoint other.pattern.columns := by
  intro other hother column hmem
  obtain ⟨node, hnode, hmem⟩ := List.mem_flatMap.mp hmem
  exact h node (hsub hnode) other hother hmem

lemma apart_append {nodes others : List Request} :
    Apart (nodes ++ others) ↔ Apart nodes ∧ Apart others ∧ NodesApart nodes others :=
  List.pairwise_append

/-- That the nodes go by names. -/
def Named (nodes : List Request) : Prop :=
  ∀ node ∈ nodes, IsName node.pattern.name

/-- Well-formed trees have their nodes apart. -/
lemma WellFormed.apart {request : Request} (h : request.WellFormed) : Apart request.nodes := by
  have hnames := List.pairwise_map.mp h.names
  refine hnames.imp_of_mem fun hnode hother hne => ?_
  exact Pattern.disjoint_columns (h.lexical _ hnode).name (h.lexical _ hother).name hne

/-- In a well-formed tree a column tells its node. -/
lemma WellFormed.eq_of_column_eq {request node other : Request} (h : request.WellFormed)
    (hnode : node ∈ request.nodes) (hother : other ∈ request.nodes) {column column' : Column}
    (heq : node.pattern.column column = other.pattern.column column') :
    node = other ∧ column = column' := by
  obtain ⟨hnames, hcolumns⟩ :=
    Pattern.column_injective (h.lexical _ hnode).name (h.lexical _ hother).name heq
  exact ⟨List.inj_on_of_nodup_map h.names hnode hother hnames, hcolumns⟩

/-- **Every column has a name of its own**, whatever the nodes and their fields are called: in the
    depth-first list of the nodes of an accepted tree the columns of two of them have one name only
    where they are one node's and hold the same. -/
theorem column_eq_iff {request : Request} (h : request.Accepted) {i j : ℕ}
    (hi : i < request.nodes.length) (hj : j < request.nodes.length) (column column' : Column) :
    request.nodes[i].pattern.column column = request.nodes[j].pattern.column column'
      ↔ i = j ∧ column = column' := by
  constructor
  · intro heq
    obtain ⟨hnode, hcolumn⟩ := h.wellFormed.eq_of_column_eq (List.getElem_mem hi)
      (List.getElem_mem hj) heq
    have hnodup := List.Nodup.of_map _ h.wellFormed.names
    exact ⟨hnodup.getElem_inj_iff.mp hnode, hcolumn⟩
  · rintro ⟨rfl, rfl⟩
    rfl

/-- With a gene and its traits, both nodes have an id; the field of the gene that is called `id` has
    a third column. -/
theorem column_eq_iff_gene_with_traits :
    ∃ request : Request, request.Accepted ∧ ∃ (hgene : 0 < request.nodes.length)
      (htrait : 1 < request.nodes.length),
      request.nodes[0].pattern.column .id ≠ request.nodes[1].pattern.column .id
        ∧ request.nodes[0].pattern.column .id ≠ request.nodes[0].pattern.column (.field "id") := by
  have haccepted : Accepted ⟨⟨"Gene", "Gene", [], none, false, false, false, ["name"], none⟩,
      [⟨⟨"Trait", "t", [], some ":has", false, true, false, ["p"], some "Gene"⟩, []⟩]⟩ :=
    ⟨_, ofText_gene_with_traits⟩
  have hgene : 0 < 2 := by decide
  have htrait : 1 < 2 := by decide
  refine ⟨_, haccepted, hgene, htrait, fun heq => ?_, fun heq => ?_⟩
  · have hsame := ((column_eq_iff haccepted hgene htrait _ _).mp heq).1
    exact absurd hsame (by decide)
  · have hsame := ((column_eq_iff haccepted hgene hgene _ _).mp heq).2
    exact absurd hsame (by decide)

end Request

end GraphRequest
