import GraphRequest.Proofs.Fold.Grouping
import GraphRequest.Proofs.Request.Columns

/-!
# Rows that change nothing

What a row does to a scope depends on the columns of the request alone, and a row that says nothing
new does nothing.  Both are stated for the scope of a node, at every level at once.

* `Request.absorb_congr` — rows that agree on the columns of a request do the same.
* `Request.Witnessed` — that a row says nothing new: wherever it has an id, other rows have had it,
  and the edge it reached the node by too.
* `Request.gather_append_of_witnessed` — such rows do nothing.
* `Request.gather_product_left`, `Request.gather_product_right` — hence each of two lists of rows
  can be found again in their product, as long as the other one is not empty.
-/

namespace GraphRequest

/-! ## Rows that agree -/

/-- That two rows have the same in some columns. -/
def Row.AgreeOn (columns : List String) (row other : Row) : Prop :=
  ∀ column ∈ columns, row.lookup column = other.lookup column

lemma Row.AgreeOn.mono {columns more : List String} {row other : Row} (h : row.AgreeOn more other)
    (hsub : columns ⊆ more) : AgreeOn columns row other :=
  fun column hmem => h column (hsub hmem)

lemma Row.AgreeOn.present? {columns : List String} {row other : Row}
    (h : row.AgreeOn columns other) {column : String} (hmem : column ∈ columns) :
    row.present? column = other.present? column := by
  rw [Row.present?, Row.present?, h column hmem]

lemma Row.present?_eq_some_iff {row : Row} {column : String} {value : Json} :
    row.present? column = some value ↔ row.lookup column = some value ∧ value ≠ .null := by
  rw [Row.present?]
  cases hlookup : List.lookup column row with
  | none => simp
  | some found =>
      constructor
      · intro h
        cases found <;> cases h <;> simp
      · rintro ⟨heq, hne⟩
        cases heq
        cases value <;> simp_all

lemma Row.present?_of_lookup {row : Row} {column : String} {value : Json}
    (hlookup : row.lookup column = some value) (hvalue : value ≠ .null) :
    row.present? column = some value :=
  Row.present?_eq_some_iff.mpr ⟨hlookup, hvalue⟩

lemma Row.agreeOn_append_left {columns : List String} {row other : Row}
    (h : ∀ column ∈ Entries.keys other, column ∉ columns) : AgreeOn columns (row ++ other) row := by
  intro column hmem
  have hnone : other.lookup column = none :=
    Entries.lookup_eq_none_iff.mpr fun hother => h column hother hmem
  rw [List.lookup_append, hnone, Option.or_none]

lemma Row.agreeOn_append_right {columns : List String} {row other : Row}
    (h : ∀ column ∈ Entries.keys row, column ∉ columns) : AgreeOn columns (row ++ other) other := by
  intro column hmem
  have hnone : row.lookup column = none :=
    Entries.lookup_eq_none_iff.mpr fun hrow => h column hrow hmem
  rw [List.lookup_append, hnone, Option.none_or]

namespace Pattern

variable {pattern : Pattern} {row other : Row}

lemma identity?_congr (h : row.AgreeOn pattern.columns other) :
    pattern.identity? row = pattern.identity? other :=
  h.present? id_mem_columns

lemma key?_congr (h : row.AgreeOn pattern.columns other) :
    pattern.key? row = pattern.key? other := by
  rw [key?, key?, identity?_congr h]

lemma collectedEdge?_congr (h : row.AgreeOn pattern.columns other) :
    pattern.collectedEdge? row = pattern.collectedEdge? other := by
  rw [collectedEdge?, collectedEdge?]
  split
  · rename_i hcollects
    simp only [Bool.and_eq_true, Bool.not_eq_true'] at hcollects
    exact h.present? (edge_mem_columns hcollects.2)
  · rfl

end Pattern

/-- What a row first says of an entity is in the columns of the node. -/
lemma Entity.ofRow_congr (request : Request) {row other : Row}
    (h : row.AgreeOn request.pattern.columns other) : ofRow request row = ofRow request other := by
  have hfields : request.pattern.fieldsIn row = request.pattern.fieldsIn other := by
    rw [Pattern.fieldsIn, Pattern.fieldsIn]
    congr 1
    refine List.map_congr_left fun field hfield => ?_
    rw [h _ (Pattern.field_mem_columns hfield)]
  rw [ofRow, ofRow, hfields]
  congr 1
  · split
    · rename_i hlabels
      rw [h _ (Pattern.labels_mem_columns hlabels)]
    · rfl
  · split
    · rename_i hgraph
      rw [h _ (Pattern.graph_mem_columns hgraph)]
    · rfl

lemma Entity.addEdge_congr {pattern : Pattern} {row other : Row}
    (h : row.AgreeOn pattern.columns other) (entity : Entity) :
    entity.addEdge pattern row = entity.addEdge pattern other := by
  rw [addEdge, addEdge, Pattern.collectedEdge?_congr h]

namespace Request

/-- What rows do to the scopes of several children is the same if it is for each child. -/
lemma absorbBelow_ext {row other : Row} {children : List Request}
    (h : ∀ child ∈ children, ∀ scope, absorb row child scope = absorb other child scope)
    (scopes : List Scope) :
    absorbBelow row children scopes = absorbBelow other children scopes := by
  induction children generalizing scopes with
  | nil => rfl
  | cons child children ih =>
      obtain ⟨hchild, hchildren⟩ := List.forall_mem_cons.mp h
      cases scopes with
      | nil => rfl
      | cons scope scopes => rw [absorbBelow, absorbBelow, hchild, ih hchildren]

/-- Rows that agree on the columns of a node do the same to it if they do the same below. -/
lemma absorb_ext {row other : Row} {pattern : Pattern} {children : List Request}
    (hown : row.AgreeOn pattern.columns other)
    (hbelow : ∀ child ∈ children, ∀ scope, absorb row child scope = absorb other child scope)
    (scope : Scope) :
    absorb row ⟨pattern, children⟩ scope = absorb other ⟨pattern, children⟩ scope := by
  rw [absorb, absorb, Pattern.identity?_congr hown]
  simp only [Entity.ofRow_congr ⟨pattern, children⟩ hown, Entity.addEdge_congr hown,
    absorbBelow_ext hbelow]

/-- **Rows that agree on the columns of a request do the same.** -/
theorem absorb_congr {row other : Row} (request : Request) (h : row.AgreeOn request.columns other)
    (scope : Scope) : absorb row request scope = absorb other request scope := by
  induction request using Request.induction generalizing scope with
  | node pattern children ih =>
      have hown := own_subset_columns ⟨pattern, children⟩
      refine absorb_ext (h.mono hown) (fun child hchild => ih child hchild (h.mono ?_)) scope
      exact child_subset_columns ⟨pattern, children⟩ hchild

/-- Rows that do the same one by one make the same scope. -/
lemma fold_ext {request : Request} {rows others : List Row}
    (h : List.Forall₂ (fun row other => ∀ scope, absorb row request scope
      = absorb other request scope) rows others) : request.fold rows = request.fold others := by
  have hfold : ∀ scope, rows.foldl (fun scope row => request.absorb row scope) scope
      = others.foldl (fun scope row => request.absorb row scope) scope := by
    induction h with
    | nil => exact fun _ => rfl
    | cons hrow _ ih =>
        intro scope
        rw [List.foldl_cons, List.foldl_cons, hrow, ih]
  exact hfold []

/-- Rows that agree one by one have the same scope. -/
lemma gather_congr {request : Request} {rows others : List Row}
    (h : List.Forall₂ (Row.AgreeOn request.columns) rows others) :
    request.gather rows = request.gather others := by
  rw [← fold_eq_gather, ← fold_eq_gather]
  exact fold_ext (h.imp fun _ _ hrow => absorb_congr request hrow)

/-! ## Rows that say nothing new -/

mutual

/-- That a row says nothing new about a node and those below it: an id it has was met before, the
    edge of the row is known for it, and below there is nothing new either. -/
def Witnessed : Request → List Row → Row → Prop
  | ⟨pattern, children⟩, rows, row => ∀ key, pattern.key? row = some key →
    key ∈ pattern.keysIn rows
      ∧ (∀ edge, pattern.collectedEdge? row = some edge →
          (Json.distinct ((pattern.rowsWith key rows).filterMap pattern.collectedEdge?)).any
            (·.agrees edge) = true)
      ∧ WitnessedBelow children (pattern.rowsWith key rows) row
termination_by structural request => request

/-- The same about the children of an entity, in the rows of that entity. -/
def WitnessedBelow : List Request → List Row → Row → Prop
  | [], _, _ => True
  | child :: children, rows, row => Witnessed child rows row ∧ WitnessedBelow children rows row
termination_by structural children => children

end

end Request

/-- A known edge is not added. -/
lemma Entity.addEdge_eq_self {entity : Entity} {pattern : Pattern} {row : Row}
    (h : ∀ edge, pattern.collectedEdge? row = some edge →
      entity.edges.any (·.agrees edge) = true) : entity.addEdge pattern row = entity := by
  obtain ⟨fields, labels, edges, graph, branches⟩ := entity
  rw [addEdge]
  cases hedge : pattern.collectedEdge? row with
  | none => rfl
  | some edge =>
      have hknown : Json.addNew edges edge = edges := if_pos (h edge hedge)
      simp only [hknown]

namespace Request

mutual

/-- **A row that says nothing new does nothing.** -/
theorem gather_append_singleton_of_witnessed {row : Row} : ∀ (request : Request) (rows : List Row),
    request.Witnessed rows row → request.gather (rows ++ [row]) = request.gather rows
  | ⟨pattern, children⟩, rows => by
      intro h
      rw [← absorb_gather, absorb]
      cases hid : pattern.identity? row with
      | none => rfl
      | some id =>
          have hkey : pattern.key? row = some id.compact := by simp [Pattern.key?, hid]
          obtain ⟨hmem, hedge, hbelow⟩ := h _ hkey
          let group := pattern.rowsWith id.compact rows
          let entity := Entity.ofGroup ⟨pattern, children⟩ group (gatherBelow children group)
          have hlookup : (gather ⟨pattern, children⟩ rows).lookup id.compact = some entity := by
            rw [gather, Entries.lookup_mapValues, pattern.lookup_groups, if_pos hmem]
            rfl
          have hedges : entity.addEdge pattern row = entity := Entity.addEdge_eq_self hedge
          have hbranches : absorbBelow row children (gatherBelow children group)
              = gatherBelow children group := by
            rw [absorbBelow_gatherBelow,
              gatherBelow_append_singleton_of_witnessed children group hbelow]
          refine Entries.upsert_eq_self hlookup ?_
          simp only [Option.getD_some, hedges]
          exact congrArg (fun branches => { entity with branches }) hbranches
termination_by structural request => request

lemma gatherBelow_append_singleton_of_witnessed {row : Row} :
    ∀ (children : List Request) (rows : List Row),
      WitnessedBelow children rows row →
        gatherBelow children (rows ++ [row]) = gatherBelow children rows
  | [], _ => fun _ => rfl
  | child :: children, rows => by
      intro h
      rw [gatherBelow, gatherBelow, gather_append_singleton_of_witnessed child rows h.1,
        gatherBelow_append_singleton_of_witnessed children rows h.2]
termination_by structural children => children

end

/-- Rows that all say nothing new do nothing together. -/
theorem gather_append_of_witnessed {request : Request} {rows more : List Row}
    (h : ∀ row ∈ more, request.Witnessed rows row) :
    request.gather (rows ++ more) = request.gather rows := by
  induction more using List.reverseRecOn with
  | nil => rw [List.append_nil]
  | append_singleton more row ih =>
      obtain ⟨hmore, hrow⟩ := List.forall_mem_append.mp h
      rw [← List.append_assoc, ← absorb_gather, ih hmore, absorb_gather]
      exact gather_append_singleton_of_witnessed request rows (hrow row List.mem_cons_self)

end Request

/-! ## Repeated rows -/

namespace Request

/-- That every edge of a row agrees with itself, as any does unless it has a name twice. -/
def SelfAgreeing (request : Request) (row : Row) : Prop :=
  ∀ node ∈ request.nodes, ∀ edge, node.pattern.collectedEdge? row = some edge →
    edge.agrees edge = true

lemma SelfAgreeing.congr {request : Request} {row other : Row} (h : request.SelfAgreeing other)
    (hagree : row.AgreeOn request.columns other) : request.SelfAgreeing row := by
  intro node hnode edge hedge
  rw [Pattern.collectedEdge?_congr (hagree.mono (pattern_subset_columns hnode))] at hedge
  exact h node hnode edge hedge

mutual

/-- A row says nothing new after one that agrees with it. -/
theorem witnessed_of_mem {row other : Row} : ∀ (request : Request) {rows : List Row},
    other ∈ rows → row.AgreeOn request.columns other → request.SelfAgreeing row →
      request.Witnessed rows row
  | ⟨pattern, children⟩ => by
      intro hmem hagree hself key hkey
      have hown : row.AgreeOn pattern.columns other :=
        hagree.mono (own_subset_columns ⟨pattern, children⟩)
      have hother : pattern.key? other = some key := by rw [← Pattern.key?_congr hown, hkey]
      have hgroup : other ∈ pattern.rowsWith key _ :=
        List.mem_filter.mpr ⟨hmem, beq_iff_eq.mpr hother⟩
      refine ⟨pattern.mem_keysIn.mpr ⟨other, hmem, hother⟩, fun edge hedge => ?_, ?_⟩
      · refine Json.any_distinct (hself _ (mem_nodes_self _) edge hedge) ?_
        rw [Pattern.collectedEdge?_congr hown] at hedge
        exact List.mem_filterMap.mpr ⟨other, hgroup, hedge⟩
      · refine witnessedBelow_of_mem children hgroup (fun child hchild =>
          hagree.mono (child_subset_columns ⟨pattern, children⟩ hchild)) fun child hchild => ?_
        intro node hnode
        exact hself node (mem_nodes.mpr (Or.inr (mem_nodesOf.mpr ⟨child, hchild, hnode⟩)))
termination_by structural request => request

lemma witnessedBelow_of_mem {row other : Row} : ∀ (children : List Request) {rows : List Row},
    other ∈ rows → (∀ child ∈ children, row.AgreeOn child.columns other) →
      (∀ child ∈ children, child.SelfAgreeing row) → WitnessedBelow children rows row
  | [] => fun _ _ _ => trivial
  | child :: children => by
      intro hmem hagree hself
      obtain ⟨hchild, hchildren⟩ := List.forall_mem_cons.mp hagree
      obtain ⟨hselfChild, hselfChildren⟩ := List.forall_mem_cons.mp hself
      exact ⟨witnessed_of_mem child hmem hchild hselfChild,
        witnessedBelow_of_mem children hmem hchildren hselfChildren⟩
termination_by structural children => children

end

end Request

/-- The rows of two lists joined in every way, those of the first list changing last. -/
def Row.product (rows others : List Row) : List Row :=
  rows.flatMap fun row => others.map fun other => row ++ other

lemma Row.mem_product {row : Row} {rows others : List Row} :
    row ∈ product rows others ↔ ∃ left ∈ rows, ∃ right ∈ others, row = left ++ right := by
  simp [product, eq_comm]

namespace Request

open Row

variable {request : Request} {rows others : List Row}

lemma product_ne_nil (hrows : rows ≠ []) (hothers : others ≠ []) : product rows others ≠ [] := by
  obtain ⟨row, rows, rfl⟩ := List.exists_cons_of_ne_nil hrows
  obtain ⟨other, others, rfl⟩ := List.exists_cons_of_ne_nil hothers
  simp [product]

/-- **The first factor is found again in a product.**  Every row of it stands for a stretch of rows
    that agree with it, of which only the first says anything new. -/
theorem gather_product_left (hagree : ∀ row ∈ rows, ∀ other ∈ others,
      AgreeOn request.columns (row ++ other) row)
    (hself : ∀ row ∈ rows, request.SelfAgreeing row) (hothers : others ≠ []) :
    request.gather (product rows others) = request.gather rows := by
  obtain ⟨first, more, rfl⟩ := List.exists_cons_of_ne_nil hothers
  induction rows using List.reverseRecOn with
  | nil => rfl
  | append_singleton rows row ih =>
      obtain ⟨hrows, hrow⟩ := List.forall_mem_append.mp hagree
      obtain ⟨hselves, hself⟩ := List.forall_mem_append.mp hself
      have hfirst := hrow row List.mem_cons_self first List.mem_cons_self
      have hsplit : product (rows ++ [row]) (first :: more)
          = (product rows (first :: more) ++ [row ++ first]) ++ more.map (row ++ ·) := by
        simp [product]
      have hmore : ∀ joined ∈ more.map (row ++ ·),
          request.Witnessed (product rows (first :: more) ++ [row ++ first]) joined := by
        intro joined hjoined
        obtain ⟨other, hother, rfl⟩ := List.mem_map.mp hjoined
        have hjoined := hrow row List.mem_cons_self other (List.mem_cons_of_mem _ hother)
        refine witnessed_of_mem request (List.mem_append_right _ List.mem_cons_self)
          (fun column hmem => (hjoined column hmem).trans (hfirst column hmem).symm) ?_
        exact (hself row List.mem_cons_self).congr hjoined
      rw [hsplit, gather_append_of_witnessed hmore, ← absorb_gather, ih hselves hrows,
        absorb_congr request hfirst, absorb_gather]

/-- **So is the second factor.**  It stands there once for every row of the first, and after the
    first time it says nothing new. -/
theorem gather_product_right (hagree : ∀ row ∈ rows, ∀ other ∈ others,
      AgreeOn request.columns (row ++ other) other)
    (hself : ∀ other ∈ others, request.SelfAgreeing other) (hrows : rows ≠ []) :
    request.gather (product rows others) = request.gather others := by
  obtain ⟨first, more, rfl⟩ := List.exists_cons_of_ne_nil hrows
  have hsplit : product (first :: more) others
      = others.map (first ++ ·) ++ product more others := by
    simp [product]
  have hfirst := hagree first List.mem_cons_self
  have hmore : ∀ joined ∈ product more others,
      request.Witnessed (others.map (first ++ ·)) joined := by
    intro joined hjoined
    obtain ⟨row, hrow, hjoined⟩ := List.mem_flatMap.mp hjoined
    obtain ⟨other, hother, rfl⟩ := List.mem_map.mp hjoined
    have hjoined := hagree row (List.mem_cons_of_mem _ hrow) other hother
    refine witnessed_of_mem request (List.mem_map_of_mem hother)
      (fun column hmem => (hjoined column hmem).trans (hfirst other hother column hmem).symm) ?_
    exact (hself other hother).congr hjoined
  rw [hsplit, gather_append_of_witnessed hmore]
  refine gather_congr (List.forall₂_map_left_iff.mpr ?_)
  exact List.forall₂_same.mpr hfirst

end Request

end GraphRequest
