import GraphRequest.Proofs.Fold.Repetition
import GraphRequest.Proofs.Json.Agreement

/-!
# Forests and their rows

A query result is flat.  What the query found is a forest: entities, and below each of them a list
of entities for every child node.  An optional match turns the forest into rows by combining all
branches with one another, so that an entity stands in as many rows as there are combinations.

* `Match` — an entity that was found, with what was found below it.
* `Request.flatten` — the rows a forest is turned into.
* `Request.report` — the nested record of an entity.
* `Request.Fits` — that an entity and those below it have the shape of a request.
* `Match.lookup_cells` — what the columns of an entity's own node hold, which rests on columns not
  colliding.
* `Request.rowsOf_flatten` — that the rows of a forest are about the nodes of the request only.
-/

namespace GraphRequest

/-! ## Forests -/

/-- An entity that was found. -/
structure Match where
  id : Json
  /-- A value for each field that is reported, in order. -/
  fields : List Json
  labels : Option Json
  graph : Option Json
  /-- The edges to the entity above. -/
  edges : List Json
  /-- For each child node the entities found below this one. -/
  branches : List (List Match)

namespace Match

variable (found : Match) (pattern : Pattern)

/-- What the columns of a node hold for an entity that was reached by an edge. -/
def held (edge : Option Json) : List (Column × Json) :=
  [(.id, found.id)] ++ (pattern.fields.map .field).zip found.fields
    ++ found.labels.toList.map (.labels, ·) ++ found.graph.toList.map (.graph, ·)
    ++ edge.toList.map (.edge, ·)

/-- The columns themselves. -/
def cells (edge : Option Json) : Row :=
  Entries.insertAll [] <| (found.held pattern edge).map fun (column, value) =>
    (pattern.column column, value)

/-- The columns once for each edge to the entity above; a root has no edge and stands there
    once. -/
def ownRows : List Row :=
  if pattern.isRoot then [found.cells pattern none]
  else found.edges.map fun edge => found.cells pattern (some edge)

/-- The names and values that are reported of an entity. -/
def members : List (String × Json) :=
  pattern.fields.zip found.fields
    ++ found.labels.toList.map (Directive.labels.word, ·)
    ++ (if pattern.relationships then [(Directive.relationships.word, .array found.edges)] else [])
    ++ found.graph.toList.map (Directive.graph.word, ·)

/-- That an entity has what a pattern asks for: an id, a value for each field, labels and the whole
    if these are asked for, and, unless the pattern is a root, different edges.

    Edges are values as they are read, without an object that has a name twice. -/
structure FitsOwn : Prop where
  id : found.id ≠ .null
  fields : found.fields.length = pattern.fields.length
  labels : found.labels.isSome = pattern.labels
  graph : found.graph.isSome = pattern.graph
  edges : found.edges = [] ↔ pattern.isRoot = true
  present : ∀ edge ∈ found.edges, edge ≠ .null ∧ edge.NamesApart
  unequal : found.edges.Pairwise fun edge other => edge.agrees other = false

end Match

/-- The rows of a branch: where nothing was found, one row without columns. -/
def Row.ofBranch (forest : List Match) (rows : List Row) : List Row :=
  if forest.isEmpty then [[]] else rows

namespace Request

mutual

/-- The rows of entities of a node: those of each entity, and for each of its edges those of the
    branches below combined with one another. -/
def flatten : Request → List Match → List Row
  | ⟨pattern, children⟩, forest =>
    forest.flatMap fun found =>
      Row.product (found.ownRows pattern) (flattenBelow children found.branches)
termination_by structural request => request

/-- The rows of the branches below an entity combined, the first branch changing last. -/
def flattenBelow : List Request → List (List Match) → List Row
  | child :: children, forest :: branches =>
    Row.product (Row.ofBranch forest (flatten child forest)) (flattenBelow children branches)
  | _, _ => [[]]
termination_by structural children => children

end

mutual

/-- The nested record of an entity. -/
def report : Request → Match → Record
  | ⟨pattern, children⟩, found =>
    Entries.insertAll [] (found.members pattern ++ reportBelow children found.branches)
termination_by structural request => request

/-- The arrays of the records below an entity, each under the alias of the child. -/
def reportBelow : List Request → List (List Match) → List (String × Json)
  | child :: children, forest :: branches =>
    (child.pattern.name, .array (forest.map fun found => .object (report child found)))
      :: reportBelow children branches
  | _, _ => []
termination_by structural children => children

end

mutual

/-- That an entity and those below it have the shape of a request. -/
def Fits : Request → Match → Prop
  | ⟨pattern, children⟩, found => found.FitsOwn pattern ∧ FitBelow children found.branches
termination_by structural request => request

/-- That there is a list for each child, in which no id stands twice and every entity fits. -/
def FitBelow : List Request → List (List Match) → Prop
  | [], [] => True
  | child :: children, forest :: branches =>
    ((forest.map fun found => found.id.compact).Nodup ∧ ∀ found ∈ forest, Fits child found)
      ∧ FitBelow children branches
  | _, _ => False
termination_by structural children => children

end

/-- That entities are a forest of the shape of a request: no id stands twice at the top, and every
    entity fits. -/
def FitAll (request : Request) (forest : List Match) : Prop :=
  (forest.map fun found => found.id.compact).Nodup ∧ ∀ found ∈ forest, request.Fits found

end Request

/-! ## The columns of one entity -/

namespace Match

variable {found : Match} {pattern : Pattern} {edge : Option Json}

lemma lookup_single (key column : Column) (value : Json) :
    [(key, value)].lookup column = if column = key then some value else none := by
  by_cases h : column = key
  · simp [h]
  · rw [List.lookup_cons, beq_false_of_ne h, if_neg h]
    rfl

lemma lookup_optional (key column : Column) (value : Option Json) :
    (value.toList.map (key, ·)).reverse.lookup column = if column = key then value else none := by
  cases value <;> simp [lookup_single]

lemma lookup_fields (fields : List String) (values : List Json) (column : Column) :
    ((fields.map Column.field).zip values).reverse.lookup column
      = match column with
        | .field name => (fields.zip values).reverse.lookup name
        | _ => none := by
  have hfields : (fields.map Column.field).zip values
      = (fields.zip values).map fun (name, value) => (.field name, value) := by
    rw [List.zip_map_left]
    rfl
  rw [hfields, ← List.map_reverse]
  cases column with
  | field name => exact Entries.lookup_map_of_injective (fun _ _ h => Column.field.inj h) name _
  | _ =>
      refine List.lookup_eq_none_iff.mpr fun entry hentry => ?_
      obtain ⟨_, -, rfl⟩ := List.mem_map.mp hentry
      rfl

/-- What is held for a column; of a field that is named twice it is the later value. -/
lemma lookup_held (column : Column) :
    (found.held pattern edge).reverse.lookup column
      = match column with
        | .id => some found.id
        | .field name => (pattern.fields.zip found.fields).reverse.lookup name
        | .labels => found.labels
        | .graph => found.graph
        | .edge => edge := by
  simp only [held, List.reverse_append, List.lookup_append, lookup_optional, lookup_fields,
    List.reverse_singleton, lookup_single]
  cases column <;> simp

/-- A column holds what is held for it, because no two columns of a node collide. -/
lemma lookup_cells (hname : IsName pattern.name) (column : Column) :
    (found.cells pattern edge).lookup (pattern.column column)
      = match column with
        | .id => some found.id
        | .field name => (pattern.fields.zip found.fields).reverse.lookup name
        | .labels => found.labels
        | .graph => found.graph
        | .edge => edge := by
  rw [cells, Entries.lookup_insertAll, ← List.map_reverse,
    Entries.lookup_map_of_injective (Pattern.column_injective_left hname), lookup_held]
  cases column <;> simp

/-- Cells are columns of the node. -/
lemma mem_columns_of_mem_cells (hfits : found.FitsOwn pattern)
    (hedge : edge.isSome = true → pattern.isRoot = false) {column : String}
    (hmem : column ∈ Entries.keys (found.cells pattern edge)) : column ∈ pattern.columns := by
  rw [cells, Entries.mem_keys_insertAll] at hmem
  simp only [Entries.keys_nil, List.not_mem_nil, false_or] at hmem
  obtain ⟨_, hcell, rfl⟩ := List.mem_map.mp hmem
  obtain ⟨⟨kind, value⟩, hheld, rfl⟩ := List.mem_map.mp hcell
  refine List.mem_map_of_mem ?_
  have hlabels := hfits.labels
  have hgraph := hfits.graph
  simp only [held, List.mem_append, List.mem_singleton, Prod.mk.injEq, List.mem_map,
    Option.mem_toList] at hheld
  simp only [Pattern.held, List.mem_append, List.mem_singleton, List.mem_map]
  rcases hheld with (((⟨rfl, -⟩ | hfield) | ⟨_, hsome, rfl, -⟩) | ⟨_, hsome, rfl, -⟩)
    | ⟨_, hsome, rfl, -⟩
  · simp
  · obtain ⟨hfield, -⟩ := List.of_mem_zip hfield
    simp [List.mem_map.mp hfield]
  · rw [hsome] at hlabels
    simp [← hlabels]
  · rw [hsome] at hgraph
    simp [← hgraph]
  · simp [hedge (by simp [hsome])]

/-- An own row has the cells for no edge, at a root, or for one of the edges. -/
lemma exists_of_mem_ownRows {row : Row} (h : row ∈ found.ownRows pattern) :
    ∃ edge, row = found.cells pattern edge ∧ (edge.isSome = true → pattern.isRoot = false)
      ∧ ∀ e, edge = some e → e ∈ found.edges := by
  rw [ownRows] at h
  split at h
  · exact ⟨none, List.mem_singleton.mp h, by simp, by simp⟩
  · rename_i hroot
    obtain ⟨edge, hmem, rfl⟩ := List.mem_map.mp h
    exact ⟨some edge, rfl, fun _ => by simpa using hroot, by simpa using hmem⟩

lemma ownRows_ne_nil (hfits : found.FitsOwn pattern) : found.ownRows pattern ≠ [] := by
  rw [ownRows]
  split
  · simp
  · rename_i hroot
    simpa [hfits.edges] using hroot

end Match

/-! ## The rows of a forest -/

/-- A branch has a row. -/
lemma Row.ofBranch_ne_nil {forest : List Match} {rows : List Row} (h : forest ≠ [] → rows ≠ []) :
    ofBranch forest rows ≠ [] := by
  cases forest with
  | nil => simp [ofBranch]
  | cons found forest => exact h (by simp)

/-- That rows are about some nodes: they have columns of these only, and their edges agree with
    themselves. -/
structure RowsOf (nodes : List Request) (rows : List Row) : Prop where
  keys : ∀ row ∈ rows, ∀ column ∈ Entries.keys row, ∃ node ∈ nodes, column ∈ node.pattern.columns
  self : ∀ row ∈ rows, ∀ node ∈ nodes, ∀ edge, node.pattern.collectedEdge? row = some edge →
    edge.agrees edge = true

namespace RowsOf

variable {nodes others : List Request} {rows rows' : List Row}

lemma blank (nodes : List Request) : RowsOf nodes [[]] where
  keys := by simp
  self row hrow node _ edge hedge := by
    obtain rfl := List.mem_singleton.mp hrow
    rw [Pattern.collectedEdge?] at hedge
    split at hedge <;> simp [Row.present?] at hedge

/-- Rows about other nodes change nothing about a node. -/
lemma agreeOn_left (h : RowsOf others rows') {columns : List String}
    (hapart : ∀ other ∈ others, columns.Disjoint other.pattern.columns) (row : Row) {row' : Row}
    (hmem : row' ∈ rows') : Row.AgreeOn columns (row ++ row') row := by
  refine Row.agreeOn_append_left fun column hkey hcolumn => ?_
  obtain ⟨other, hother, hmem⟩ := h.keys row' hmem column hkey
  exact hapart other hother hcolumn hmem

lemma agreeOn_right (h : RowsOf nodes rows) {columns : List String}
    (hapart : ∀ node ∈ nodes, columns.Disjoint node.pattern.columns) {row : Row} (hmem : row ∈ rows)
    (row' : Row) : Row.AgreeOn columns (row ++ row') row' := by
  refine Row.agreeOn_append_right fun column hkey hcolumn => ?_
  obtain ⟨node, hnode, hmem⟩ := h.keys row hmem column hkey
  exact hapart node hnode hcolumn hmem

/-- A product is about the nodes of both factors. -/
lemma product (h : RowsOf nodes rows) (h' : RowsOf others rows')
    (hapart : Request.NodesApart nodes others) :
    RowsOf (nodes ++ others) (Row.product rows rows') where
  keys row hrow column hkey := by
    obtain ⟨left, hleft, right, hright, rfl⟩ := Row.mem_product.mp hrow
    rw [Entries.keys_append, List.mem_append] at hkey
    rcases hkey with hkey | hkey
    · obtain ⟨node, hnode, hmem⟩ := h.keys left hleft column hkey
      exact ⟨node, List.mem_append_left _ hnode, hmem⟩
    · obtain ⟨other, hother, hmem⟩ := h'.keys right hright column hkey
      exact ⟨other, List.mem_append_right _ hother, hmem⟩
  self row hrow node hnode edge hedge := by
    obtain ⟨left, hleft, right, hright, rfl⟩ := Row.mem_product.mp hrow
    rcases List.mem_append.mp hnode with hnode | hnode
    · rw [Pattern.collectedEdge?_congr (h'.agreeOn_left (hapart node hnode) left hright)] at hedge
      exact h.self left hleft node hnode edge hedge
    · have hright' := h.agreeOn_right (hapart.symm node hnode)
        hleft right
      rw [Pattern.collectedEdge?_congr hright'] at hedge
      exact h'.self right hright node hnode edge hedge

lemma ofBranch {forest : List Match} (h : forest ≠ [] → RowsOf nodes rows) :
    RowsOf nodes (Row.ofBranch forest rows) := by
  cases forest with
  | nil => exact blank nodes
  | cons found forest => exact h (by simp)

lemma flatMap {α : Type} {items : List α} {block : α → List Row}
    (h : ∀ item ∈ items, RowsOf nodes (block item)) : RowsOf nodes (items.flatMap block) where
  keys row hrow := by
    obtain ⟨item, hitem, hrow⟩ := List.mem_flatMap.mp hrow
    exact (h item hitem).keys row hrow
  self row hrow := by
    obtain ⟨item, hitem, hrow⟩ := List.mem_flatMap.mp hrow
    exact (h item hitem).self row hrow

/-- The own rows of an entity are about its node. -/
lemma ownRows {found : Match} {pattern : Pattern} (children : List Request)
    (hname : IsName pattern.name) (hfits : found.FitsOwn pattern) :
    RowsOf [⟨pattern, children⟩] (found.ownRows pattern) where
  keys row hrow column hkey := by
    obtain ⟨edge, rfl, hedge, -⟩ := Match.exists_of_mem_ownRows hrow
    exact ⟨_, List.mem_singleton_self _, Match.mem_columns_of_mem_cells hfits hedge hkey⟩
  self row hrow node hnode edge hedge := by
    obtain ⟨own, rfl, -, hown⟩ := Match.exists_of_mem_ownRows hrow
    obtain rfl := List.mem_singleton.mp hnode
    have hlookup : (found.cells pattern own).lookup pattern.edgeColumn = own :=
      Match.lookup_cells hname .edge
    rw [Pattern.collectedEdge?] at hedge
    split at hedge
    · have hsome : own = some edge := by
        rw [Row.present?] at hedge
        split at hedge <;> simp_all
      exact Json.agrees_self edge (hfits.present edge (hown edge hsome)).2
    · simp at hedge

end RowsOf

namespace Request

mutual

/-- The rows of a forest are about the nodes of the request, and there are some unless the forest
    is empty. -/
theorem rowsOf_flatten : ∀ (request : Request) (forest : List Match),
    Named request.nodes → Apart request.nodes → (∀ found ∈ forest, request.Fits found) →
      RowsOf request.nodes (flatten request forest)
        ∧ (forest ≠ [] → flatten request forest ≠ [])
  | ⟨pattern, children⟩, forest => by
      intro hnamed hapart hfits
      rw [nodes_mk] at hnamed hapart ⊢
      obtain ⟨-, hbelow, hown⟩ := apart_append.mp hapart
      obtain ⟨hname, hnames⟩ := List.forall_mem_append.mp hnamed
      have hblock : ∀ found ∈ forest,
          RowsOf ([⟨pattern, children⟩] ++ nodesOf children)
            (Row.product (found.ownRows pattern) (flattenBelow children found.branches))
          ∧ Row.product (found.ownRows pattern) (flattenBelow children found.branches) ≠ [] := by
        intro found hfound
        obtain ⟨hfit, hbranches⟩ := hfits found hfound
        obtain ⟨hrows, hne⟩ := rowsOf_flattenBelow children found.branches hnames hbelow hbranches
        exact ⟨(RowsOf.ownRows children (hname _ List.mem_cons_self) hfit).product hrows hown,
          product_ne_nil (Match.ownRows_ne_nil hfit) hne⟩
      rw [flatten]
      refine ⟨RowsOf.flatMap fun found hfound => (hblock found hfound).1, fun hne => ?_⟩
      obtain ⟨found, forest, rfl⟩ := List.exists_cons_of_ne_nil hne
      simp [(hblock found List.mem_cons_self).2]
termination_by structural request => request

lemma rowsOf_flattenBelow : ∀ (children : List Request) (branches : List (List Match)),
    Named (nodesOf children) → Apart (nodesOf children) → FitBelow children branches →
      RowsOf (nodesOf children) (flattenBelow children branches)
        ∧ flattenBelow children branches ≠ []
  | [], _ => fun _ _ _ => ⟨RowsOf.blank _, by simp [flattenBelow]⟩
  | _ :: _, [] => fun _ _ h => h.elim
  | child :: children, forest :: branches => by
      intro hnamed hapart hfits
      obtain ⟨⟨-, hfit⟩, hbranches⟩ := hfits
      rw [nodesOf_cons] at hnamed hapart ⊢
      obtain ⟨hchild, hchildren, hbetween⟩ := apart_append.mp hapart
      obtain ⟨hname, hnames⟩ := List.forall_mem_append.mp hnamed
      obtain ⟨hrows, hne⟩ := rowsOf_flatten child forest hname hchild hfit
      obtain ⟨hrows', hne'⟩ := rowsOf_flattenBelow children branches hnames hchildren hbranches
      rw [flattenBelow]
      exact ⟨(RowsOf.ofBranch fun _ => hrows).product hrows' hbetween,
        product_ne_nil (Row.ofBranch_ne_nil hne) hne'⟩
termination_by structural children => children

end

end Request

end GraphRequest
