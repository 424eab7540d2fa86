import GraphRequest.Proofs.Fold.Absorption
import GraphRequest.Proofs.Fold.Shape

/-!
# What the fold keeps

The fold changes entities in place, row by row and at every depth at once, and the scopes below an
entity bear no names: which child one belongs to is told by its position alone.  If there were a
scope too few anywhere, the last children would be passed over without a word.

* `Entity.Consistent` — what is kept of an entity: a scope for each child, labels and the entity as
  a whole exactly if they are reported, and different edges, if edges are collected at all.
* `Request.Consistent` — what is kept of a scope: the ids stand in the order in which rows brought
  them, each once, and the entities are consistent.
* `Request.Consistent.absorb` — the step: a row that is taken into a consistent scope leaves it
  consistent, whether its id is known or new, and whichever branches it has nothing for.
* `Request.consistent_fold` — hence every run from the empty scope ends in a consistent one.
* `Request.Inside` — the scopes at every depth and the rows that come to each.  A scope inside is
  itself made by a run, one of these rows (`Request.Inside.eq_fold`), so what is kept by runs is
  kept at every depth.
* **`Request.consistent_of_inside`** — all scopes are consistent, and what the next row does to any
  of them: nothing, if it is not taken, and otherwise no branch is passed over.
-/

namespace GraphRequest

/-- Whether a row is taken into a scope of a node.  One that is not is skipped there. -/
def Pattern.takes (pattern : Pattern) (row : Row) : Bool :=
  (pattern.identity? row).isSome

/-- **What is kept of an entity** of a node. -/
structure Entity.Consistent (node : Request) (entity : Entity) : Prop where
  branches : entity.branches.length = node.children.length
  labels : entity.labels.isSome = node.pattern.labels
  graph : entity.graph.isSome = node.pattern.graph
  present : ∀ edge ∈ entity.edges, edge ≠ .null
  unequal : entity.edges.Pairwise fun edge other => edge.agrees other = false
  uncollected : node.pattern.isRoot = true ∨ node.pattern.relationships = false →
    entity.edges = []

namespace Request

/-- **What is kept of a scope** of a node that some rows came to. -/
structure Consistent (node : Request) (rows : List Row) (scope : Scope) : Prop where
  order : Entries.keys scope = node.pattern.keysIn rows
  nodup : (Entries.keys scope).Nodup
  entities : ∀ entry ∈ scope, entry.2.Consistent node

end Request

variable {node : Request} {row : Row} {rows : List Row} {scope : Scope} {key : String}

/-! ## The step for one entity -/

namespace Entity

variable {entity : Entity}

/-- A new entity is consistent. -/
lemma consistent_ofRow (node : Request) (row : Row) : (ofRow node row).Consistent node where
  branches := List.length_map _
  labels := by
    rw [ofRow]
    cases node.pattern.labels <;> rfl
  graph := by
    rw [ofRow]
    cases node.pattern.graph <;> rfl
  present := List.forall_mem_nil _
  unequal := List.Pairwise.nil
  uncollected _ := rfl

/-- An edge is added only if it is there and a new one, and only where edges are collected. -/
lemma Consistent.addEdge (h : entity.Consistent node) (row : Row) :
    (entity.addEdge node.pattern row).Consistent node := by
  rw [Entity.addEdge]
  split
  · exact h
  · rename_i edge hedge
    rw [Pattern.collectedEdge?] at hedge
    split at hedge
    · rename_i hcollects
      have hpresent : edge ≠ .null := (Row.present?_eq_some_iff.mp hedge).2
      refine ⟨h.branches, h.labels, h.graph, ?_, Json.pairwise_addNew edge h.unequal, ?_⟩
      · intro value hvalue
        rcases Json.mem_of_mem_addNew hvalue with hknown | rfl
        · exact h.present value hknown
        · exact hpresent
      · intro hnone
        simp only [Bool.and_eq_true, Bool.not_eq_true'] at hcollects
        rcases hnone with hroot | hrelationships
        · simp [hroot] at hcollects
        · simp [hrelationships] at hcollects
    · cases hedge

/-- Other scopes below an entity make no difference as long as they are as many. -/
lemma Consistent.withBranches (h : entity.Consistent node) {branches : List Scope}
    (hlength : branches.length = entity.branches.length) :
    { entity with branches }.Consistent node :=
  ⟨hlength.trans h.branches, h.labels, h.graph, h.present, h.unequal, h.uncollected⟩

end Entity

namespace Request

/-! ## The step for a scope -/

lemma length_absorbBelow (row : Row) (children : List Request) (scopes : List Scope) :
    (absorbBelow row children scopes).length = scopes.length := by
  induction children generalizing scopes with
  | nil => rfl
  | cons child children ih =>
      cases scopes with
      | nil => rfl
      | cons scope scopes => rw [absorbBelow, List.length_cons, List.length_cons, ih]

/-- **A row that is not taken leaves the scope as it is.** -/
lemma absorb_of_not_takes (h : node.pattern.takes row = false) (scope : Scope) :
    absorb row node scope = scope := by
  obtain ⟨pattern, children⟩ := node
  have hid : pattern.identity? row = none := by simpa [Pattern.takes] using h
  rw [absorb, hid]

/-- What a row makes of the entity of its id, which may be known or not. -/
def changed (node : Request) (row : Row) (known : Option Entity) : Entity :=
  let entity := known.getD (Entity.ofRow node row)
  { entity.addEdge node.pattern row with
    branches := absorbBelow row node.children entity.branches }

/-- A row that is taken changes the entity of its id. -/
lemma absorb_of_key? (h : node.pattern.key? row = some key) (scope : Scope) :
    absorb row node scope = scope.upsert key (node.changed row) := by
  obtain ⟨pattern, children⟩ := node
  obtain ⟨id, hid, rfl⟩ := Option.map_eq_some_iff.mp h
  have hid : pattern.identity? row = some id := hid
  simp only [absorb, hid, Entity.branches_addEdge]
  rfl

/-- The entity that a row comes to is consistent, be it known or new. -/
lemma consistent_getD {known : Option Entity} (h : ∀ entity ∈ known, entity.Consistent node)
    (row : Row) : (known.getD (Entity.ofRow node row)).Consistent node := by
  cases known with
  | none => exact Entity.consistent_ofRow node row
  | some entity => exact h entity rfl

lemma consistent_changed {known : Option Entity} (h : ∀ entity ∈ known, entity.Consistent node)
    (row : Row) : (node.changed row known).Consistent node := by
  refine ((consistent_getD h row).addEdge row).withBranches ?_
  rw [length_absorbBelow, Entity.branches_addEdge]

/-- **The step.** -/
theorem Consistent.absorb (h : node.Consistent rows scope) (row : Row) :
    node.Consistent (rows ++ [row]) (absorb row node scope) := by
  cases hkey : node.pattern.key? row with
  | none =>
      have htakes : node.pattern.takes row = false := by
        simpa [Pattern.takes, Pattern.key?] using hkey
      rw [absorb_of_not_takes htakes]
      refine ⟨?_, h.nodup, h.entities⟩
      rw [h.order, node.pattern.keysIn_append_of_none hkey]
  | some key =>
      rw [absorb_of_key? hkey]
      refine ⟨?_, Entries.nodup_keys_upsert key _ h.nodup, ?_⟩
      · rw [Entries.keys_upsert, h.order, node.pattern.keysIn_append_of_some hkey]
      · refine Entries.forall_mem_upsert h.entities (consistent_changed (by simp) row) ?_
        intro entity hentity
        exact consistent_changed (by simpa using hentity) row

/-- **The run.**  Whatever rows come, the scope they make is consistent. -/
theorem consistent_fold (node : Request) (rows : List Row) :
    node.Consistent rows (node.fold rows) := by
  induction rows using List.reverseRecOn with
  | nil => exact ⟨rfl, List.nodup_nil, List.forall_mem_nil _⟩
  | append_singleton rows row ih =>
      rw [fold, List.foldl_append]
      exact ih.absorb row

/-! ## Scopes at every depth -/

/-- The scopes inside the one that rows make of a request, at every depth, each with its node and
    the rows that come to it.  All rows come to the outermost scope, and the rows with the id of an
    entity to the scopes below it. -/
inductive Inside (request : Request) (rows : List Row) : Request → List Row → Scope → Prop
  | outermost : Inside request rows request rows (request.fold rows)
  | branch {node child : Request} {group : List Row} {scope found : Scope} {key : String}
      {entity : Entity} {number : ℕ} (hscope : Inside request rows node group scope)
      (hentity : (key, entity) ∈ scope) (hchild : node.children[number]? = some child)
      (hfound : entity.branches[number]? = some found) :
      Inside request rows child (node.pattern.rowsWith key group) found

/-- An entity that a run made is that of the rows with its id, and the scopes below it are made by
    runs of these rows. -/
lemma eq_ofGroup_of_mem_fold {entity : Entity} (h : (key, entity) ∈ node.fold rows) :
    entity = Entity.ofGroup node (node.pattern.rowsWith key rows)
      (node.children.map fun child => child.fold (node.pattern.rowsWith key rows)) := by
  obtain ⟨pattern, children⟩ := node
  simp only [fold_eq_gather, ← gatherBelow_eq_map] at h ⊢
  rw [gather] at h
  obtain ⟨⟨other, group⟩, hgroup, heq⟩ := List.mem_map.mp h
  obtain ⟨name, -, hname⟩ := List.mem_map.mp hgroup
  cases hname
  cases heq
  rfl

/-- **A scope inside is made by a run**: by the rows that come to it, one after the other. -/
theorem Inside.eq_fold {request : Request} {group : List Row}
    (h : Inside request rows node group scope) : scope = node.fold group := by
  induction h with
  | outermost => rfl
  | branch hscope hentity hchild hfound ih =>
      rw [ih] at hentity
      rw [eq_ofGroup_of_mem_fold hentity, Entity.ofGroup, List.getElem?_map, hchild] at hfound
      exact (Option.some.inj hfound).symm

/-- Rows as they are read have no name twice.  Then no edge of an entity agrees with another one,
    whichever of the two is looked up in the other. -/
lemma pairwise_edges_of_mem_fold {entity : Entity} (h : (key, entity) ∈ node.fold rows)
    (hread : ∀ row ∈ rows, (Json.object row).NamesApart) :
    entity.edges.Pairwise fun edge other =>
      edge.agrees other = false ∧ other.agrees edge = false := by
  have hapart : ∀ edge ∈ entity.edges, edge.NamesApart := by
    intro edge hedge
    rw [eq_ofGroup_of_mem_fold h] at hedge
    obtain ⟨row, hrow, hcollected⟩ := List.mem_filterMap.mp (Json.mem_of_mem_distinct hedge)
    exact namesApart_of_collectedEdge? (hread row (List.mem_of_mem_filter hrow)) hcollected
  refine ((consistent_fold node rows).entities _ h).unequal.imp_of_mem ?_
  intro edge other hedge hother hunequal
  refine ⟨hunequal, Bool.eq_false_iff.mpr fun hagrees => ?_⟩
  rw [Json.agrees_symm (hapart other hother) (hapart edge hedge) hagrees] at hunequal
  cases hunequal

/-! ## No child is passed over -/

/-- The arrays of the children in the scopes below an entity, each under the name of its child. -/
def arrays (children : List Request) (scopes : List Scope) : Record :=
  (children.zip scopes).map fun pair =>
    (pair.1.pattern.name, .array ((pair.1.records pair.2).map .object))

lemma recordBelow_eq_insertAll (children : List Request) (scopes : List Scope) (sofar : Record) :
    recordBelow children scopes sofar = Entries.insertAll sofar (arrays children scopes) := by
  induction children generalizing scopes sofar with
  | nil => rfl
  | cons child children ih =>
      cases scopes with
      | nil => rfl
      | cons scope scopes =>
          have hbelow : (child.records scope).map Json.object
              = scope.map fun entry => Json.object (child.record entry.2) := by
            rw [records, List.map_map]
            rfl
          have harrays : arrays (child :: children) (scope :: scopes)
              = (child.pattern.name, .array ((child.records scope).map .object))
                :: arrays children scopes := rfl
          rw [recordBelow, ih, harrays, Entries.insertAll_cons, hbelow]

/-- **The record of a consistent entity has an array for every child.** -/
lemma record_of_consistent {entity : Entity} (h : entity.Consistent node) :
    node.record entity = Entries.insertAll (entity.ownRecord node.pattern)
        (arrays node.children entity.branches)
      ∧ Entries.keys (arrays node.children entity.branches) = node.childNames := by
  refine ⟨?_, ?_⟩
  · obtain ⟨pattern, children⟩ := node
    rw [record, recordBelow_eq_insertAll]
  · calc Entries.keys (arrays node.children entity.branches)
        = (node.children.zip entity.branches).map fun pair => pair.1.pattern.name := by
          rw [arrays, Entries.keys, List.map_map]
          rfl
      _ = ((node.children.zip entity.branches).map Prod.fst).map fun child =>
            child.pattern.name := by
          rw [List.map_map]
          rfl
      _ = node.childNames := by
          rw [List.map_fst_zip (Nat.le_of_eq h.branches.symm)]
          rfl

lemma getElem?_absorbBelow {children : List Request} {scopes : List Scope} {number : ℕ}
    {child : Request} (hchild : children[number]? = some child)
    (hscope : scopes[number]? = some scope) (row : Row) :
    (absorbBelow row children scopes)[number]? = some (absorb row child scope) := by
  induction children generalizing scopes number with
  | nil => simp at hchild
  | cons first children ih =>
      cases scopes with
      | nil => simp at hscope
      | cons other scopes =>
          cases number with
          | zero =>
              cases hchild
              cases hscope
              rfl
          | succ number =>
              rw [List.getElem?_cons_succ] at hchild hscope
              rw [absorbBelow, List.getElem?_cons_succ, ih hchild hscope]

end Request

/-! ## The next row -/

/-- What a row that is taken does to its entity: the entity itself changes by the edge of the row,
    and each of its scopes is what the row makes of it, or stays as it is if the row is not taken
    there. -/
structure Entity.Updated (node : Request) (row : Row) (entity later : Entity) : Prop where
  own : later = { entity.addEdge node.pattern row with branches := later.branches }
  below : ∀ (number : ℕ) (child : Request), node.children[number]? = some child →
    ∃ scope, entity.branches[number]? = some scope
      ∧ later.branches[number]?
        = some (if child.pattern.takes row then Request.absorb row child scope else scope)

namespace Request

/-- What a row that is taken does to a scope: the entity under the text of its id is updated, or a
    new one at the end, and all others stay as they are. -/
structure Updated (node : Request) (row : Row) (key : String) (scope later : Scope) : Prop where
  order : Entries.keys later
    = if key ∈ Entries.keys scope then Entries.keys scope else Entries.keys scope ++ [key]
  others : ∀ other, other ≠ key → later.lookup other = scope.lookup other
  entity : ∃ entity, later.lookup key = some entity
    ∧ ((scope.lookup key).getD (Entity.ofRow node row)).Updated node row entity

/-- **No branch of a consistent entity is passed over**: there is a scope for every child, and the
    row goes into each. -/
lemma updated_changed {known : Option Entity} (h : ∀ entity ∈ known, entity.Consistent node)
    (row : Row) :
    (known.getD (Entity.ofRow node row)).Updated node row (node.changed row known) where
  own := rfl
  below number child hchild := by
    have hnumber := (List.getElem?_eq_some_iff.mp hchild).1
    rw [← (consistent_getD h row).branches] at hnumber
    have hscope := List.getElem?_eq_getElem hnumber
    refine ⟨_, hscope, ?_⟩
    rw [changed, getElem?_absorbBelow hchild hscope row]
    split
    · rfl
    · rename_i htakes
      rw [absorb_of_not_takes (by simpa using htakes)]

/-- A row that is taken into a consistent scope updates the entity of its id. -/
lemma Consistent.updated (h : node.Consistent rows scope)
    (hkey : node.pattern.key? row = some key) :
    node.Updated row key scope (Request.absorb row node scope) := by
  have hknown : ∀ entity ∈ scope.lookup key, entity.Consistent node :=
    fun entity hentity => h.entities (key, entity) (Entries.mem_of_lookup hentity)
  rw [absorb_of_key? hkey]
  refine ⟨Entries.keys_upsert key _ scope, ?_, node.changed row (scope.lookup key), ?_, ?_⟩
  · intro other hother
    rw [Entries.lookup_upsert, if_neg hother]
  · rw [Entries.lookup_upsert, if_pos rfl]
  · exact updated_changed hknown row

/-- **What the fold keeps, at every depth.**  For every request and all rows, every scope inside is
    what the rows that come to it make of the empty one, one after the other.

* Its ids stand in the order in which the rows brought them, and its entities are consistent.
* If the rows are such as are read, two edges of an entity differ whichever is looked up in the
  other.
* The record of an entity has an array for every child.
* A row that is not taken leaves the scope as it is.  A row that is taken updates the entity of its
  id: wherever it is not taken below, the scope there stays as it is, and the rest of the row counts
  all the same. -/
theorem consistent_of_inside {request : Request} {group : List Row}
    (h : Inside request rows node group scope) :
    scope = node.fold group ∧ node.Consistent group scope
      ∧ ((∀ row ∈ group, (Json.object row).NamesApart) → ∀ entry ∈ scope,
          entry.2.edges.Pairwise fun edge other =>
            edge.agrees other = false ∧ other.agrees edge = false)
      ∧ (∀ entry ∈ scope,
          node.record entry.2 = Entries.insertAll (entry.2.ownRecord node.pattern)
              (arrays node.children entry.2.branches)
            ∧ Entries.keys (arrays node.children entry.2.branches) = node.childNames)
      ∧ ∀ row : Row, (node.pattern.takes row = false → absorb row node scope = scope)
        ∧ ∀ key, node.pattern.key? row = some key →
            node.Updated row key scope (absorb row node scope) := by
  obtain rfl := h.eq_fold
  have hconsistent : node.Consistent group (node.fold group) := consistent_fold node group
  refine ⟨rfl, hconsistent, ?_, ?_, ?_⟩
  · exact fun hread entry hentry => pairwise_edges_of_mem_fold hentry hread
  · exact fun entry hentry => record_of_consistent (hconsistent.entities entry hentry)
  · intro row
    exact ⟨fun htakes => absorb_of_not_takes htakes _, fun _ hkey => hconsistent.updated hkey⟩

/-- Two rows reach the trait of a gene by different edges, and the next row has a site for the
    gene and no trait.  It leaves the scope of the traits as it is and takes the site to the same
    gene. -/
theorem consistent_inside_gene_with_trait_and_site :
    ∃ (request trait site : Request) (rows : List Row) (row : Row) (traits : Scope),
      Inside request rows trait rows traits
      ∧ traits.map (fun entry => entry.2.edges) = [[.string "a", .string "b"]]
      ∧ trait.Consistent rows traits
      ∧ (∀ entry ∈ traits, entry.2.edges.Pairwise fun edge other =>
          edge.agrees other = false ∧ other.agrees edge = false)
      ∧ trait.pattern.takes row = false ∧ absorb row trait traits = traits
      ∧ site.pattern.takes row = true
      ∧ request.Updated row "true" (request.fold rows) (request.fold (rows ++ [row]))
      ∧ (request.fold rows).map (fun entry => entry.2.branches.map Entries.keys)
        = [[["true"], []]]
      ∧ (request.fold (rows ++ [row])).map (fun entry => entry.2.branches.map Entries.keys)
        = [[["true"], ["false"]]] := by
  let trait : Request :=
    ⟨⟨"Trait", "t", [], some ":has", false, true, false, ["p"], some "Gene"⟩, []⟩
  let site : Request := ⟨⟨"Site", "s", [], some ":at", true, false, false, ["q"], some "Gene"⟩, []⟩
  let request : Request :=
    ⟨⟨"Gene", "Gene", [], none, false, false, true, ["name"], none⟩, [trait, site]⟩
  let first : Row := [("__Geneid", .bool true), ("__tid", .bool true), ("__tr", .string "a")]
  let second : Row := [("__Geneid", .bool true), ("__tid", .bool true), ("__tr", .string "b")]
  let rows : List Row := [first, second]
  let row : Row := [("__Geneid", .bool true), ("__tid", .null), ("__sid", .bool false)]
  let traits : Scope := trait.fold rows
  have hgenes : Inside request rows request rows (request.fold rows) := .outermost
  have htrait : request.children[0]? = some trait := rfl
  have hbranch : Inside request rows trait (request.pattern.rowsWith "true" rows) traits :=
    .branch hgenes (.head _) htrait rfl
  have htraits : Inside request rows trait rows traits := hbranch
  have hread : ∀ row ∈ rows, (Json.object row).NamesApart := by
    simp [rows, first, second, Json.NamesApart, Json.MembersApart]
  obtain ⟨-, hconsistent, hedges, -, hrow⟩ := consistent_of_inside htraits
  obtain ⟨-, -, -, -, hgene⟩ := consistent_of_inside hgenes
  exact ⟨request, trait, site, rows, row, traits, htraits, rfl, hconsistent, hedges hread, rfl,
    (hrow row).1 rfl, rfl, (hgene row).2 "true" rfl, rfl, rfl⟩

end Request

end GraphRequest
