import GraphRequest.Fold.Record
import GraphRequest.Proofs.Json.Agreement
import Mathlib.Data.List.Induction
import Mathlib.Data.List.Nodup

/-!
# Folding is grouping

`Request.fold` takes in one row after the other and touches every level of the request with each
of them.  This file gives the state it reaches in closed form: the rows are grouped by the text of
their id, groups in the order in which the texts first appear, and the children are grouped inside
each group.

* `Pattern.groups` — the rows of each id;
* `Pattern.groups_flatMap` — rows that come in blocks, one for each id, are grouped into these;
* `Request.gather` — the scope that nested grouping makes of all rows at once;
* **`Request.absorb_gather`** — the step: a row taken into the scope of some rows gives the scope
  of the rows with that one after them.  This is the invariant of the loop, for every level at
  once;
* **`Request.fold_eq_gather`** — hence folding is grouping.

The records are then read off the groups.  `Request.regroup` says what they are without mentioning
a state, and `Request.reduce_eq_regroup` that reducing rows gives just these.
-/

namespace GraphRequest

/-! ## Edges -/

/-- The different values among edges, each where it stands first. -/
def Json.distinct (edges : List Json) : List Json :=
  edges.eraseDupsBy fun edge known => known.agrees edge

/-- Adding edges one after the other keeps those that no known one and no earlier one agrees
    with. -/
lemma Json.foldl_addNew (edges known : List Json) :
    edges.foldl addNew known
      = known ++ distinct (edges.filter fun edge => !known.any fun other => other.agrees edge) := by
  induction edges generalizing known with
  | nil => simp [distinct]
  | cons edge edges ih =>
      rw [List.foldl_cons, ih, addNew]
      by_cases h : known.any fun other => other.agrees edge
      · simp [h]
      · simp [h, distinct, List.eraseDupsBy_cons, List.filter_filter, Bool.and_comm]

lemma Json.distinct_eq_foldl (edges : List Json) : distinct edges = edges.foldl addNew [] := by
  rw [foldl_addNew, List.nil_append, List.filter_eq_self.mpr (by simp)]

lemma Json.distinct_append (edges more : List Json) :
    distinct (edges ++ more) = more.foldl addNew (distinct edges) := by
  rw [distinct_eq_foldl, List.foldl_append, ← distinct_eq_foldl]

lemma Json.distinct_append_singleton (edges : List Json) (edge : Json) :
    distinct (edges ++ [edge]) = addNew (distinct edges) edge :=
  distinct_append edges [edge]

/-- What agrees with an edge agrees with one of the different edges: with the edge itself, or with
    the known one that it was not added beside. -/
lemma Json.any_distinct {edges : List Json} {known edge : Json} (h : known.agrees edge = true)
    (hmem : known ∈ edges) : (distinct edges).any (·.agrees edge) = true := by
  induction edges using List.reverseRecOn with
  | nil => simp at hmem
  | append_singleton edges last ih =>
      rw [distinct_append_singleton, addNew]
      rcases List.mem_append.mp hmem with hmem | hlast
      · split
        · exact ih hmem
        · rw [List.any_append, ih hmem, Bool.true_or]
      · obtain rfl := List.mem_singleton.mp hlast
        split
        · rename_i hfound
          obtain ⟨first, hfirst, hagrees⟩ := List.any_eq_true.mp hfound
          exact List.any_eq_true.mpr ⟨first, hfirst, agrees_trans hagrees h⟩
        · simp [h]

/-- The different values of blocks of one value each. -/
lemma Json.distinct_flatMap {edges : List Json} {block : Json → List Json}
    (hblock : ∀ edge ∈ edges, block edge ≠ [] ∧ ∀ value ∈ block edge, value = edge)
    (hself : ∀ edge ∈ edges, edge.agrees edge = true)
    (hunequal : edges.Pairwise fun edge other => edge.agrees other = false) :
    distinct (edges.flatMap block) = edges := by
  induction edges using List.reverseRecOn with
  | nil => rfl
  | append_singleton edges edge ih =>
      obtain ⟨hblocks, hlast⟩ := List.forall_mem_append.mp hblock
      obtain ⟨hselves, hself⟩ := List.forall_mem_append.mp hself
      obtain ⟨hpairs, -, hnew⟩ := List.pairwise_append.mp hunequal
      obtain ⟨hne, hall⟩ := hlast edge List.mem_cons_self
      obtain ⟨first, more, hcons⟩ := List.exists_cons_of_ne_nil hne
      rw [hcons] at hall
      obtain ⟨rfl, hmore⟩ := List.forall_mem_cons.mp hall
      have hadded : addNew edges first = edges ++ [first] := by
        refine if_neg ?_
        simpa using fun other hother => hnew other hother first List.mem_cons_self
      have hknown : more.filter (fun value => !(edges ++ [first]).any (·.agrees value)) = [] := by
        refine List.filter_eq_nil_iff.mpr fun value hvalue => ?_
        rw [hmore value hvalue]
        simp [hself first List.mem_cons_self]
      rw [List.flatMap_append, List.flatMap_singleton, distinct_append, hcons,
        ih hblocks hselves hpairs, List.foldl_cons, hadded, foldl_addNew, hknown]
      simp [distinct]

/-! ## Groups -/

namespace Pattern

variable (pattern : Pattern)

/-- The text of the id a row has for a node. -/
def key? (row : Row) : Option String :=
  (pattern.identity? row).map Json.compact

/-- The texts of the ids in rows, in the order in which they first appear. -/
def keysIn (rows : List Row) : List String :=
  (rows.filterMap pattern.key?).eraseDups

/-- The rows with one id. -/
def rowsWith (key : String) (rows : List Row) : List Row :=
  rows.filter fun row => pattern.key? row == some key

/-- The rows that have an id, by its text.  The texts stand in the order in which they first
    appear, and the rows of each in theirs. -/
def groups (rows : List Row) : Entries (List Row) :=
  (pattern.keysIn rows).map fun key => (key, pattern.rowsWith key rows)

lemma mem_keysIn {key : String} {rows : List Row} :
    key ∈ pattern.keysIn rows ↔ ∃ row ∈ rows, pattern.key? row = some key := by
  simp [keysIn, List.mem_eraseDups]

lemma rowsWith_eq_nil {key : String} {rows : List Row} (h : key ∉ pattern.keysIn rows) :
    pattern.rowsWith key rows = [] := by
  rw [rowsWith, List.filter_eq_nil_iff]
  intro row hmem hkey
  exact h (pattern.mem_keysIn.mpr ⟨row, hmem, by simpa using hkey⟩)

lemma rowsWith_ne_nil {key : String} {rows : List Row} (h : key ∈ pattern.keysIn rows) :
    pattern.rowsWith key rows ≠ [] := by
  obtain ⟨row, hmem, hkey⟩ := pattern.mem_keysIn.mp h
  exact List.ne_nil_of_mem (List.mem_filter.mpr ⟨hmem, by simp [hkey]⟩)

/-- A row without an id is in no group. -/
lemma groups_append_of_none {rows : List Row} {row : Row} (h : pattern.key? row = none) :
    pattern.groups (rows ++ [row]) = pattern.groups rows := by
  simp [groups, keysIn, rowsWith, h]

lemma keysIn_append_of_none {rows : List Row} {row : Row} (h : pattern.key? row = none) :
    pattern.keysIn (rows ++ [row]) = pattern.keysIn rows := by
  simp [keysIn, h]

lemma keysIn_append_of_some {rows : List Row} {row : Row} {key : String}
    (h : pattern.key? row = some key) :
    pattern.keysIn (rows ++ [row])
      = if key ∈ pattern.keysIn rows then pattern.keysIn rows
        else pattern.keysIn rows ++ [key] := by
  simp only [keysIn, List.filterMap_append, List.filterMap_cons, h, List.filterMap_nil,
    List.eraseDups_append, List.mem_eraseDups]
  generalize rows.filterMap pattern.key? = keys
  by_cases hmem : key ∈ keys
  · simp [List.removeAll, hmem]
  · simp [List.removeAll, hmem, List.eraseDups_cons]

lemma nodup_keysIn (rows : List Row) : (pattern.keysIn rows).Nodup := by
  induction rows using List.reverseRecOn with
  | nil => simp [keysIn]
  | append_singleton rows row ih =>
      cases h : pattern.key? row with
      | none => rwa [pattern.keysIn_append_of_none h]
      | some key =>
          rw [pattern.keysIn_append_of_some h]
          split
          · exact ih
          · rename_i hnew
            refine List.nodup_append.mpr ⟨ih, by simp, ?_⟩
            intro a ha b hb
            rw [List.mem_singleton.mp hb]
            exact fun hab => hnew (hab ▸ ha)

@[simp] lemma keys_groups (rows : List Row) :
    Entries.keys (pattern.groups rows) = pattern.keysIn rows := by
  simp [Entries.keys, groups, Function.comp_def]

lemma lookup_groups (key : String) (rows : List Row) :
    (pattern.groups rows).lookup key
      = if key ∈ pattern.keysIn rows then some (pattern.rowsWith key rows) else none := by
  simp only [groups]
  induction pattern.keysIn rows with
  | nil => simp
  | cons other keys ih =>
      by_cases h : key = other
      · simp [h]
      · have hne : (key == other) = false := by simp [h]
        simp [List.lookup_cons, hne, h, ih]

/-- **A row goes into the group of its id**, at the end of it; a new id makes a new group at the
    end. -/
lemma groups_append_of_some {rows : List Row} {row : Row} {key : String}
    (h : pattern.key? row = some key) :
    pattern.groups (rows ++ [row])
      = Entries.upsert key (fun known => known.getD [] ++ [row]) (pattern.groups rows) := by
  refine Entries.ext_of_lookup ?_ ?_ fun other => ?_
  · rw [Entries.keys_upsert, keys_groups, keys_groups, pattern.keysIn_append_of_some h]
  · rw [keys_groups]
    exact pattern.nodup_keysIn _
  · rw [Entries.lookup_upsert, lookup_groups, lookup_groups, lookup_groups,
      pattern.keysIn_append_of_some h]
    by_cases hother : other = key
    · subst hother
      have hrow : pattern.rowsWith other (rows ++ [row])
          = pattern.rowsWith other rows ++ [row] := by
        simp [rowsWith, h]
      by_cases hmem : other ∈ pattern.keysIn rows
      · simp [hmem, hrow]
      · simp [hmem, hrow, pattern.rowsWith_eq_nil hmem]
    · have hrow : pattern.rowsWith other (rows ++ [row]) = pattern.rowsWith other rows := by
        simp [rowsWith, h, Ne.symm hother]
      by_cases hmem : key ∈ pattern.keysIn rows
      · simp [hmem, hother, hrow]
      · simp [hmem, hother, hrow]

/-- A group has a row. -/
lemma ne_nil_of_mem_groups {key : String} {group rows : List Row}
    (h : (key, group) ∈ pattern.groups rows) : group ≠ [] := by
  simp only [groups, List.mem_map, Prod.mk.injEq] at h
  obtain ⟨other, hmem, -, rfl⟩ := h
  exact pattern.rowsWith_ne_nil hmem

section

variable {pattern}

/-- Rows with one new id make one new group. -/
lemma keysIn_append_block {rows block : List Row} {key : String} (hne : block ≠ [])
    (hblock : ∀ row ∈ block, pattern.key? row = some key) (hnew : key ∉ pattern.keysIn rows) :
    pattern.keysIn (rows ++ block) = pattern.keysIn rows ++ [key] := by
  induction block using List.reverseRecOn with
  | nil => exact absurd rfl hne
  | append_singleton block row ih =>
      obtain ⟨hall, hrow⟩ := List.forall_mem_append.mp hblock
      rw [← List.append_assoc, pattern.keysIn_append_of_some (hrow row List.mem_cons_self)]
      cases block with
      | nil => rw [List.append_nil, if_neg hnew]
      | cons first block =>
          rw [ih (by simp) hall, if_pos (List.mem_append_right _ List.mem_cons_self)]

variable {α : Type} {key : α → String} {block : α → List Row}

lemma keysIn_flatMap {items : List α}
    (hblock : ∀ item ∈ items, block item ≠ []
      ∧ ∀ row ∈ block item, pattern.key? row = some (key item))
    (hnodup : (items.map key).Nodup) : pattern.keysIn (items.flatMap block) = items.map key := by
  induction items using List.reverseRecOn with
  | nil => simp [keysIn]
  | append_singleton items item ih =>
      obtain ⟨hitems, hitem⟩ := List.forall_mem_append.mp hblock
      obtain ⟨hne, hall⟩ := hitem item List.mem_cons_self
      rw [List.map_append, List.map_singleton] at hnodup ⊢
      have hkeys := ih hitems hnodup.of_append_left
      rw [List.flatMap_append, List.flatMap_singleton, keysIn_append_block hne hall, hkeys]
      rw [hkeys]
      exact fun hmem => List.disjoint_of_nodup_append hnodup hmem List.mem_cons_self

lemma rowsWith_flatMap {items : List α}
    (hblock : ∀ item ∈ items, ∀ row ∈ block item, pattern.key? row = some (key item))
    (hnodup : (items.map key).Nodup) {item : α} (hitem : item ∈ items) :
    pattern.rowsWith (key item) (items.flatMap block) = block item := by
  induction items with
  | nil => simp at hitem
  | cons first items ih =>
      obtain ⟨hfirst, hitems⟩ := List.forall_mem_cons.mp hblock
      obtain ⟨hnew, hnodup⟩ := List.nodup_cons.mp hnodup
      rw [List.flatMap_cons, rowsWith, List.filter_append, ← rowsWith, ← rowsWith]
      rcases List.mem_cons.mp hitem with rfl | hitem
      · have hrest : pattern.rowsWith (key item) (items.flatMap block) = [] := by
          refine List.filter_eq_nil_iff.mpr fun row hrow => ?_
          obtain ⟨other, hother, hrow⟩ := List.mem_flatMap.mp hrow
          rw [hitems other hother row hrow]
          simpa using fun heq : key other = key item => hnew (heq ▸ List.mem_map_of_mem hother)
        rw [hrest, List.append_nil]
        exact List.filter_eq_self.mpr fun row hrow => by simp [hfirst row hrow]
      · have hnone : pattern.rowsWith (key item) (block first) = [] := by
          refine List.filter_eq_nil_iff.mpr fun row hrow => ?_
          rw [hfirst row hrow]
          simpa using fun heq : key first = key item => hnew (heq ▸ List.mem_map_of_mem hitem)
        rw [hnone, List.nil_append, ih hitems hnodup hitem]

/-- **Blocks of rows with different ids are the groups.** -/
theorem groups_flatMap {items : List α}
    (hblock : ∀ item ∈ items, block item ≠ []
      ∧ ∀ row ∈ block item, pattern.key? row = some (key item))
    (hnodup : (items.map key).Nodup) :
    pattern.groups (items.flatMap block) = items.map fun item => (key item, block item) := by
  rw [groups, keysIn_flatMap hblock hnodup, List.map_map]
  refine List.map_congr_left fun item hitem => ?_
  rw [Function.comp_apply,
    rowsWith_flatMap (fun other hother => (hblock other hother).2) hnodup hitem]

end

end Pattern

/-! ## The scope that grouping makes -/

/-- The entity of a group of rows.  It reports what the first row says of it, and all the edges;
    `branches` are the scopes below it. -/
def Entity.ofGroup (request : Request) (group : List Row) (branches : List Scope) : Entity :=
  { ofRow request (group.headD []) with
    edges := Json.distinct (group.filterMap request.pattern.collectedEdge?)
    branches }

namespace Request

mutual

/-- The scope of a node in rows: an entity per group, and below it the scopes of the children in
    the rows of the group. -/
def gather : Request → List Row → Scope
  | ⟨pattern, children⟩, rows =>
    Entries.mapValues
      (fun group => Entity.ofGroup ⟨pattern, children⟩ group (gatherBelow children group))
      (pattern.groups rows)
termination_by structural request => request

/-- The scopes of the children in the rows of one entity. -/
def gatherBelow : List Request → List Row → List Scope
  | [], _ => []
  | child :: children, rows => gather child rows :: gatherBelow children rows
termination_by structural children => children

end

/-- Without rows there are no entities. -/
@[simp] lemma gather_nil (request : Request) : request.gather [] = [] := by
  obtain ⟨pattern, children⟩ := request
  simp [gather, Pattern.groups, Pattern.keysIn, Entries.mapValues]

lemma gatherBelow_eq_map (children : List Request) (rows : List Row) :
    gatherBelow children rows = children.map fun child => child.gather rows := by
  induction children with
  | nil => rfl
  | cons child children ih => rw [gatherBelow, ih, List.map_cons]

end Request

/-- An edge changes nothing below. -/
@[simp] lemma Entity.branches_addEdge (entity : Entity) (pattern : Pattern) (row : Row) :
    (entity.addEdge pattern row).branches = entity.branches := by
  rw [addEdge]
  split <;> rfl

/-- A row added to a group changes the entity of the group by its edge and by what is below. -/
lemma Entity.ofGroup_append_singleton (request : Request) {group : List Row} (row : Row)
    (branches branches' : List Scope) (h : group ≠ []) :
    ofGroup request (group ++ [row]) branches'
      = { (ofGroup request group branches).addEdge request.pattern row with
          branches := branches' } := by
  obtain ⟨first, rest, rfl⟩ := List.exists_cons_of_ne_nil h
  cases hedge : request.pattern.collectedEdge? row with
  | none =>
      have hedges : (first :: rest ++ [row]).filterMap request.pattern.collectedEdge?
          = (first :: rest).filterMap request.pattern.collectedEdge? := by
        rw [List.filterMap_append]
        simp [hedge]
      simp only [ofGroup, addEdge, hedge, hedges]
      rfl
  | some edge =>
      have hedges : (first :: rest ++ [row]).filterMap request.pattern.collectedEdge?
          = (first :: rest).filterMap request.pattern.collectedEdge? ++ [edge] := by
        rw [List.filterMap_append]
        simp [hedge]
      simp only [ofGroup, addEdge, hedge, hedges, Json.distinct_append_singleton]
      rfl

/-- The entity of a single row is the new one, with the edge of the row. -/
lemma Entity.ofGroup_singleton (request : Request) (row : Row) (branches : List Scope) :
    ofGroup request [row] branches
      = { (ofRow request row).addEdge request.pattern row with branches } := by
  cases hedge : request.pattern.collectedEdge? row with
  | none => simp [ofGroup, addEdge, hedge, ofRow, Json.distinct]
  | some edge =>
      simp [ofGroup, addEdge, hedge, ofRow, Json.distinct, List.eraseDupsBy_cons, Json.addNew]

namespace Request

mutual

/-- **The step.**  Taking a row into the scope of some rows gives the scope of those rows and the
    new one.  The row goes to the group of its id, where it changes the entity's own part and, by
    the same statement one level down, the scopes of the children; all other groups are as they
    were. -/
theorem absorb_gather (row : Row) : ∀ (request : Request) (rows : List Row),
    absorb row request (gather request rows) = gather request (rows ++ [row])
  | ⟨pattern, children⟩, rows => by
      cases hid : pattern.identity? row with
      | none =>
          have hkey : pattern.key? row = none := by simp [Pattern.key?, hid]
          simp only [absorb, hid, gather, pattern.groups_append_of_none hkey]
      | some id =>
          have hkey : pattern.key? row = some id.compact := by simp [Pattern.key?, hid]
          simp only [absorb, hid, gather, pattern.groups_append_of_some hkey]
          refine (Entries.upsert_mapValues _ _ _ _ _ ?_ fun group hmem => ?_).symm
          · -- a new id: the row is alone in its group, and every child starts from nothing
            have hstart : gatherBelow children [row]
                = absorbBelow row children (children.map fun _ => []) := by
              have hnil : gatherBelow children [] = children.map fun _ => [] := by
                simp [gatherBelow_eq_map]
              rw [← hnil, absorbBelow_gatherBelow row children [], List.nil_append]
            have hnone : (Entity.ofRow ⟨pattern, children⟩ row).branches
                = children.map fun _ => [] := rfl
            simp only [Option.getD_none, List.nil_append, Entity.branches_addEdge, hnone, ← hstart]
            exact Entity.ofGroup_singleton ⟨pattern, children⟩ row _
          · -- a known id: its group has rows already, so the first row stays the first
            have hne := pattern.ne_nil_of_mem_groups hmem
            have hbranches : (Entity.ofGroup ⟨pattern, children⟩ group
                (gatherBelow children group)).branches = gatherBelow children group := rfl
            simp only [Option.getD_some, Entity.branches_addEdge, hbranches,
              absorbBelow_gatherBelow row children group]
            exact Entity.ofGroup_append_singleton ⟨pattern, children⟩ row _ _ hne
termination_by structural request => request

/-- The step for the children of one entity. -/
theorem absorbBelow_gatherBelow (row : Row) : ∀ (children : List Request) (rows : List Row),
    absorbBelow row children (gatherBelow children rows) = gatherBelow children (rows ++ [row])
  | [], rows => by simp [gatherBelow, absorbBelow]
  | child :: children, rows => by
      rw [gatherBelow, absorbBelow, absorb_gather row child rows,
        absorbBelow_gatherBelow row children rows, gatherBelow]
termination_by structural children => children

end

/-- **Folding is grouping.**  Whatever order rows come in and whichever branches are missing from
    them, the scope in the end is the one that nested grouping makes of all of them. -/
theorem fold_eq_gather (request : Request) (rows : List Row) :
    request.fold rows = request.gather rows := by
  induction rows using List.reverseRecOn with
  | nil => simp [fold]
  | append_singleton rows row ih =>
      rw [← absorb_gather, ← ih, fold, fold, List.foldl_append, List.foldl_cons, List.foldl_nil]

end Request

/-! ## The records that grouping makes

What follows mentions no state: a record is a list of named values inserted one after the other,
and all of them are read off the rows of the group.
-/

/-- What the rows of an entity say of it: fields, labels and the entity as a whole as in the first
    row, and the different edges of all rows; a root has no edges. -/
def Pattern.membersOf (pattern : Pattern) (group : List Row) : List (String × Json) :=
  let first := group.headD []
  let edges := if pattern.isRoot then []
    else Json.distinct (group.filterMap fun row => row.present? pattern.edgeColumn)
  pattern.fields.map (fun field => (field, (first.lookup (pattern.fieldColumn field)).getD .null))
    ++ (if pattern.labels then
        [(Directive.labels.word, (first.lookup pattern.labelsColumn).getD (.array []))] else [])
    ++ (if pattern.relationships then [(Directive.relationships.word, .array edges)] else [])
    ++ (if pattern.graph then
        [(Directive.graph.word, (first.lookup pattern.graphColumn).getD .null)] else [])

namespace Request

mutual

/-- The records of a node in rows: one per group, and in it an array per child with the records
    of the child in the rows of the group. -/
def regroup : Request → List Row → List Record
  | ⟨pattern, children⟩, rows =>
    (pattern.groups rows).map fun (_, group) =>
      Entries.insertAll [] (pattern.membersOf group ++ regroupBelow children group)
termination_by structural request => request

/-- The arrays of the children in the rows of one entity, each under the alias of the child. -/
def regroupBelow : List Request → List Row → List (String × Json)
  | [], _ => []
  | child :: children, rows =>
    (child.pattern.name, .array ((regroup child rows).map .object)) :: regroupBelow children rows
termination_by structural children => children

end

end Request

/-- Inserting a value that may be missing is inserting the values there are. -/
lemma Entries.insertSome_eq_insertAll {α : Type} (name : String) (value : Option α)
    (entries : Entries α) :
    insertSome name value entries
      = insertAll entries (value.toList.map fun value => (name, value)) := by
  cases value <;> rfl

/-- The own part of the record of a group is what its rows say. -/
lemma Entity.ownRecord_ofGroup (request : Request) (group : List Row) (branches : List Scope) :
    (ofGroup request group branches).ownRecord request.pattern
      = Entries.insertAll [] (request.pattern.membersOf group) := by
  have hedges : request.pattern.relationships = true →
      group.filterMap request.pattern.collectedEdge?
        = if request.pattern.isRoot then []
          else group.filterMap fun row => row.present? request.pattern.edgeColumn := by
    intro hrel
    have hcollected : request.pattern.collectedEdge?
        = fun row => if request.pattern.isRoot then none
            else row.present? request.pattern.edgeColumn := by
      funext row
      cases hroot : request.pattern.isRoot <;> simp [Pattern.collectedEdge?, hrel, hroot]
    rw [hcollected]
    cases request.pattern.isRoot <;> simp
  simp only [ownRecord, Entries.insertSome_eq_insertAll, Pattern.membersOf,
    Entries.insertAll_append, ofGroup, ofRow, Pattern.fieldsIn]
  congr 1
  · congr 1
    · congr 1
      cases request.pattern.labels <;> rfl
    · cases hrel : request.pattern.relationships with
      | false => rfl
      | true =>
          rw [hedges hrel]
          cases request.pattern.isRoot <;> rfl
  · cases request.pattern.graph <;> rfl

namespace Request

mutual

/-- The records of the scope that grouping makes are those that grouping says. -/
theorem records_gather : ∀ (request : Request) (rows : List Row),
    request.records (request.gather rows) = request.regroup rows
  | ⟨pattern, children⟩, rows => by
      simp only [records, gather, Entries.mapValues, List.map_map, regroup]
      refine List.map_congr_left fun entry _ => ?_
      obtain ⟨key, group⟩ := entry
      have hown := Entity.ownRecord_ofGroup ⟨pattern, children⟩ group (gatherBelow children group)
      simp only [Function.comp_apply, record, Entries.insertAll_append]
      rw [hown]
      exact recordBelow_gatherBelow children group _
termination_by structural request => request

/-- The arrays below an entity, likewise. -/
theorem recordBelow_gatherBelow : ∀ (children : List Request) (rows : List Row) (sofar : Record),
    recordBelow children (gatherBelow children rows) sofar
      = Entries.insertAll sofar (regroupBelow children rows)
  | [], rows, sofar => by simp [recordBelow, regroupBelow]
  | child :: children, rows, sofar => by
      have hchild := records_gather child rows
      have hmap : ((child.gather rows).map fun (_, entity) => Json.object (child.record entity))
          = (child.regroup rows).map .object := by
        rw [← hchild, records, List.map_map]
        rfl
      simp only [gatherBelow, recordBelow, regroupBelow, Entries.insertAll_cons, hmap]
      exact recordBelow_gatherBelow children rows _
termination_by structural children => children

end

/-- **Reducing is nested grouping.**  For every request, that of an inner node included, and all
    rows in any order. -/
theorem reduce_eq_regroup (request : Request) (rows : List Row) :
    request.reduce rows = request.regroup rows := by
  rw [reduce, fold_eq_gather, records_gather]

end Request

end GraphRequest
