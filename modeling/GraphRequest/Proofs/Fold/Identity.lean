import GraphRequest.Proofs.Fold.Growth
import GraphRequest.Proofs.Json.Writing
import Mathlib.Data.Set.Card

/-!
# An entity is an id

Rows are about the same entity when they have the same id for it, and the fold goes by the text of
the id.  Texts of different ids are different, so no entity is ever made of rows with two ids: not
of rows with `1` and `"1"`, and not of rows with an array and with its text.

Entities keep their places in a scope, so they can be told apart by them.

* `Request.trail` — the places of the entities that a row is taken into, from the root down to a
  node.  `Request.exists_getElem?_absorb`, `Request.getElem?_absorb_of_ne` and
  `Request.scopeBelow_fold_append` justify the name: there is an entity at the place, a row changes
  nothing beside it, and below it the row is taken into the scopes of the children.
* `Request.trail_append` — the trail of a row does not depend on the rows that come after it.
* **`Request.trail_eq_iff`** — two rows are taken into the same entities down to a node if and only
  if they have the same ids down to it.
* **`Request.length_reduce`** — hence the answer has one record for each id.
-/

namespace GraphRequest

namespace Pattern

/-- Where a row goes in a scope: to the entity under the text of its id, or to a new one behind all
    others. -/
def place? (pattern : Pattern) (row : Row) (scope : Scope) : Option ℕ :=
  (pattern.identity? row).map fun id => (Entries.keys scope).idxOf id.compact

variable {pattern : Pattern} {row : Row} {id : Json}

lemma key?_of_identity? (h : pattern.identity? row = some id) :
    pattern.key? row = some id.compact := by
  rw [key?, h, Option.map_some]

lemma place?_of_identity? (h : pattern.identity? row = some id) (scope : Scope) :
    pattern.place? row scope = some ((Entries.keys scope).idxOf id.compact) := by
  rw [place?, h, Option.map_some]

/-- A row is one of those with its id. -/
lemma rowsWith_append_cons {key : String} (h : pattern.key? row = some key)
    (before between : List Row) :
    pattern.rowsWith key (before ++ row :: between)
      = pattern.rowsWith key before ++ row :: pattern.rowsWith key between := by
  rw [rowsWith_append, rowsWith, rowsWith, List.filter_cons, h, if_pos (beq_self_eq_true _)]
  rfl

/-- An id keeps the place at which it comes up. -/
lemma idxOf_keysIn_append {key : String} (h : pattern.key? row = some key)
    (before between : List Row) :
    (pattern.keysIn (before ++ row :: between)).idxOf key = (pattern.keysIn before).idxOf key := by
  have hkeys : pattern.keysIn (before ++ row :: between)
      = pattern.keysIn (before ++ [row])
        ++ pattern.keysIn (pattern.newRows (before ++ [row]) between) := by
    rw [← keysIn_append, List.append_assoc, List.singleton_append]
  have hmem : key ∈ pattern.keysIn (before ++ [row]) :=
    pattern.mem_keysIn.mpr ⟨row, by simp, h⟩
  rw [hkeys, List.idxOf_append_of_mem hmem, pattern.keysIn_append_of_some h]
  split
  · rfl
  · rename_i hnew
    rw [List.idxOf_append_of_notMem hnew, List.idxOf_of_notMem hnew, List.idxOf_cons_self]
    rfl

/-- **Different ids stand at different places**, where one of them comes up. -/
lemma idxOf_keysIn_eq_iff {rows : List Row} {id' : Json} (hmem : row ∈ rows)
    (hid : pattern.identity? row = some id) :
    (pattern.keysIn rows).idxOf id.compact = (pattern.keysIn rows).idxOf id'.compact
      ↔ id = id' := by
  have hkey := pattern.mem_keysIn.mpr ⟨row, hmem, key?_of_identity? hid⟩
  rw [List.idxOf_inj hkey, Json.compact_injective.eq_iff]

end Pattern

namespace Request

/-- The scope of the child with a number below the entity at a place; below a new entity there is
    nothing yet. -/
def scopeBelow (scope : Scope) (place number : ℕ) : Scope :=
  (scope[place]?.bind fun (_, entity) => entity.branches[number]?).getD []

/-- The places of the entities that a row is taken into, from the root down to the node that a path
    of child numbers leads to; nothing if the row has no id on the way. -/
def trail (row : Row) : List ℕ → Request → Scope → Option (List ℕ)
  | [], request, scope => (request.pattern.place? row scope).map fun place => [place]
  | number :: path, request, scope =>
    (request.pattern.place? row scope).bind fun place =>
      request.children[number]?.bind fun child =>
        (trail row path child (scopeBelow scope place number)).map fun places => place :: places

/-- The ids of a row from the root down to the node that a path of child numbers leads to. -/
def idsAlong (row : Row) : List ℕ → Request → Option (List Json)
  | [], request => (request.pattern.identity? row).map fun id => [id]
  | number :: path, request =>
    (request.pattern.identity? row).bind fun id =>
      request.children[number]?.bind fun child =>
        (idsAlong row path child).map fun ids => id :: ids

variable {request child : Request} {row row' : Row} {id : Json} {scope : Scope}
  {place number : ℕ} {path : List ℕ} {rows : List Row} {ids ids' : List Json}

/-! ## What a row changes -/

/-- **A row changes nothing beside the entity at its place.** -/
theorem getElem?_absorb_of_ne {other : ℕ} (h : request.pattern.place? row scope = some place)
    (hother : other ≠ place) : (absorb row request scope)[other]? = scope[other]? := by
  obtain ⟨pattern, children⟩ := request
  obtain ⟨id, hid, rfl⟩ := Option.map_eq_some_iff.mp h
  have hid' : pattern.identity? row = some id := hid
  rw [absorb, hid']
  exact Entries.getElem?_upsert_of_ne hother _

/-- At that place stands the entity with the text of the row's id, known before or new. -/
theorem exists_getElem?_absorb (hid : request.pattern.identity? row = some id)
    (h : request.pattern.place? row scope = some place) :
    ∃ entity, (absorb row request scope)[place]? = some (id.compact, entity) := by
  obtain ⟨pattern, children⟩ := request
  rw [Pattern.place?_of_identity? hid, Option.some.injEq] at h
  have hid' : pattern.identity? row = some id := hid
  rw [absorb, hid', ← h]
  exact ⟨_, Entries.getElem?_upsert_idxOf _ _ _⟩

@[simp] lemma keys_gather (request : Request) (rows : List Row) :
    Entries.keys (request.gather rows) = request.pattern.keysIn rows := by
  obtain ⟨pattern, children⟩ := request
  rw [gather, ← pattern.keys_groups rows, Entries.keys, Entries.mapValues, List.map_map]
  rfl

/-- In what grouping makes of rows the scopes below an entity are those of the rows with its id. -/
lemma scopeBelow_gather (hchild : request.children[number]? = some child) (key : String)
    (rows : List Row) :
    scopeBelow (request.gather rows) ((request.pattern.keysIn rows).idxOf key) number
      = child.gather (request.pattern.rowsWith key rows) := by
  have hscope := Entries.getElem?_idxOf key (request.gather rows)
  rw [keys_gather] at hscope
  rw [scopeBelow, hscope]
  obtain ⟨pattern, children⟩ := request
  rw [gather, Entries.lookup_mapValues, pattern.lookup_groups]
  split
  · simp only [Option.map_some, Option.bind_some, Entity.ofGroup, gatherBelow_eq_map,
      List.getElem?_map]
    rw [hchild]
    rfl
  · rename_i hnew
    rw [pattern.rowsWith_eq_nil hnew, gather_nil]
    rfl

/-- **Below the entity at its place a row is taken into the scopes of the children.** -/
theorem scopeBelow_fold_append (hchild : request.children[number]? = some child)
    (h : request.pattern.place? row (request.fold rows) = some place) :
    scopeBelow (request.fold (rows ++ [row])) place number
      = absorb row child (scopeBelow (request.fold rows) place number) := by
  obtain ⟨id, hid, rfl⟩ := Option.map_eq_some_iff.mp h
  have hkey := Pattern.key?_of_identity? hid
  have hrows : request.pattern.rowsWith id.compact (rows ++ [row])
      = request.pattern.rowsWith id.compact rows ++ [row] :=
    Pattern.rowsWith_append_cons hkey rows []
  simp only [fold_eq_gather, keys_gather]
  rw [scopeBelow_gather hchild, absorb_gather, ← hrows, ← scopeBelow_gather hchild,
    Pattern.idxOf_keysIn_append hkey]

/-! ## The trail of a row -/

/-- The trail begins with the place of the root's id and goes on in the rows that have it. -/
lemma trail_gather (hid : request.pattern.identity? row = some id)
    (hchild : request.children[number]? = some child) (path : List ℕ) (rows : List Row) :
    trail row (number :: path) request (request.gather rows)
      = (trail row path child (child.gather (request.pattern.rowsWith id.compact rows))).map
          fun places => (request.pattern.keysIn rows).idxOf id.compact :: places := by
  rw [trail, Pattern.place?_of_identity? hid, Option.bind_some, hchild, Option.bind_some,
    keys_gather, scopeBelow_gather hchild]

/-- The ids along a path are those of the nodes on it. -/
lemma idsAlong_cons_eq_some :
    idsAlong row (number :: path) request = some ids ↔
      ∃ id child more, request.pattern.identity? row = some id
        ∧ request.children[number]? = some child ∧ idsAlong row path child = some more
        ∧ ids = id :: more := by
  simp only [idsAlong, Option.bind_eq_some_iff, Option.map_eq_some_iff]
  constructor
  · rintro ⟨id, hid, child, hchild, more, hmore, rfl⟩
    exact ⟨id, child, more, hid, hchild, hmore, rfl⟩
  · rintro ⟨id, child, more, hid, hchild, hmore, rfl⟩
    exact ⟨id, hid, child, hchild, more, hmore, rfl⟩

/-- A row with ids is taken in wherever it comes. -/
lemma exists_trail (h : idsAlong row path request = some ids) (scope : Scope) :
    ∃ places, trail row path request scope = some places := by
  induction path generalizing request ids scope with
  | nil =>
      obtain ⟨id, hid, -⟩ := Option.map_eq_some_iff.mp h
      exact ⟨_, by rw [trail, Pattern.place?_of_identity? hid, Option.map_some]⟩
  | cons number path ih =>
      obtain ⟨id, child, more, hid, hchild, hmore, -⟩ := idsAlong_cons_eq_some.mp h
      obtain ⟨places, hplaces⟩ :=
        ih hmore (scopeBelow scope ((Entries.keys scope).idxOf id.compact) number)
      exact ⟨_, by rw [trail, Pattern.place?_of_identity? hid, Option.bind_some, hchild,
        Option.bind_some, hplaces, Option.map_some]⟩

/-- **Entities keep their places**: the trail of a row is what it was when the row was taken in,
    whatever rows came after it. -/
theorem trail_append (h : idsAlong row path request = some ids) (before between : List Row) :
    trail row path request (request.gather (before ++ row :: between))
      = trail row path request (request.gather before) := by
  induction path generalizing request ids before between with
  | nil =>
      obtain ⟨id, hid, -⟩ := Option.map_eq_some_iff.mp h
      have hkey := Pattern.key?_of_identity? hid
      rw [trail, trail, Pattern.place?_of_identity? hid, Pattern.place?_of_identity? hid,
        keys_gather, keys_gather, Pattern.idxOf_keysIn_append hkey]
  | cons number path ih =>
      obtain ⟨id, child, more, hid, hchild, hmore, -⟩ := idsAlong_cons_eq_some.mp h
      have hkey := Pattern.key?_of_identity? hid
      rw [trail_gather hid hchild, trail_gather hid hchild, Pattern.rowsWith_append_cons hkey,
        ih hmore, Pattern.idxOf_keysIn_append hkey]

/-- In what some rows were made into, the trail of one of them is that of another row if the two
    have the same ids, and only then. -/
lemma places_eq_iff {places places' : List ℕ} (hmem : row ∈ rows)
    (hids : idsAlong row path request = some ids) (hids' : idsAlong row' path request = some ids')
    (hplaces : trail row path request (request.gather rows) = some places)
    (hplaces' : trail row' path request (request.gather rows) = some places') :
    places = places' ↔ ids = ids' := by
  induction path generalizing request rows ids ids' places places' with
  | nil =>
      obtain ⟨id, hid, rfl⟩ := Option.map_eq_some_iff.mp hids
      obtain ⟨id', hid', rfl⟩ := Option.map_eq_some_iff.mp hids'
      rw [trail, Pattern.place?_of_identity? hid, keys_gather, Option.map_some] at hplaces
      rw [trail, Pattern.place?_of_identity? hid', keys_gather, Option.map_some] at hplaces'
      rw [← Option.some.inj hplaces, ← Option.some.inj hplaces', List.singleton_inj,
        List.singleton_inj, Pattern.idxOf_keysIn_eq_iff hmem hid]
  | cons number path ih =>
      obtain ⟨id, child, more, hid, hchild, hmore, rfl⟩ := idsAlong_cons_eq_some.mp hids
      obtain ⟨id', child', more', hid', hchild', hmore', rfl⟩ := idsAlong_cons_eq_some.mp hids'
      obtain rfl := Option.some.inj (hchild.symm.trans hchild')
      rw [trail_gather hid hchild] at hplaces
      rw [trail_gather hid' hchild] at hplaces'
      obtain ⟨below, hbelow, rfl⟩ := Option.map_eq_some_iff.mp hplaces
      obtain ⟨below', hbelow', rfl⟩ := Option.map_eq_some_iff.mp hplaces'
      rw [List.cons_eq_cons, List.cons_eq_cons, Pattern.idxOf_keysIn_eq_iff hmem hid]
      -- below different entities the places say nothing about one another
      refine and_congr_right ?_
      rintro rfl
      have hkey := Pattern.key?_of_identity? hid
      have hgroup : row ∈ request.pattern.rowsWith id.compact rows :=
        List.mem_filter.mpr ⟨hmem, beq_iff_eq.mpr hkey⟩
      exact ih hgroup hmore hmore' hbelow hbelow'

/-- **Two rows are taken into the same entities if and only if they have the same ids.**  With an
    empty path it is about the entity of the root, with another one about that of an inner node and
    those above it, so that below a common parent it is the last ids that count. -/
theorem trail_eq_iff (before between : List Row)
    (hids : idsAlong row path request = some ids)
    (hids' : idsAlong row' path request = some ids') :
    ∃ places places', trail row path request (request.fold before) = some places
      ∧ trail row' path request (request.fold (before ++ row :: between)) = some places'
      ∧ (places = places' ↔ ids = ids') := by
  obtain ⟨places, hplaces⟩ := exists_trail hids (request.fold before)
  obtain ⟨places', hplaces'⟩ := exists_trail hids' (request.fold (before ++ row :: between))
  refine ⟨places, places', hplaces, hplaces', ?_⟩
  rw [fold_eq_gather] at hplaces hplaces'
  rw [← trail_append hids before between] at hplaces
  exact places_eq_iff (by simp) hids hids' hplaces hplaces'

/-- Of two rows about one gene, one has a number as the id of a trait and one the text of that
    number.  They are about two traits. -/
theorem trail_eq_iff_gene_with_traits_one_and_its_text :
    ∃ (request : Request) (row row' : Row) (places places' : List ℕ), request.Accepted
      ∧ idsAlong row [0] request = some [.string "g", .number (.integer 1)]
      ∧ idsAlong row' [0] request = some [.string "g", .string "1"]
      ∧ trail row [0] request (request.fold []) = some places
      ∧ trail row' [0] request (request.fold [row]) = some places' ∧ places ≠ places' := by
  let request : Request := ⟨⟨"Gene", "Gene", [], none, false, false, false, ["name"], none⟩,
    [⟨⟨"Trait", "t", [], some ":has", false, true, false, ["p"], some "Gene"⟩, []⟩]⟩
  let row : Row := [("__Geneid", .string "g"), ("__tid", .number (.integer 1))]
  let row' : Row := [("__Geneid", .string "g"), ("__tid", .string "1")]
  have hids : idsAlong row [0] request = some [.string "g", .number (.integer 1)] := rfl
  have hids' : idsAlong row' [0] request = some [.string "g", .string "1"] := rfl
  obtain ⟨places, places', hplaces, hplaces', hiff⟩ := trail_eq_iff [] [] hids hids'
  refine ⟨request, row, row', places, places', ⟨_, ofText_gene_with_traits⟩, hids, hids', hplaces,
    hplaces', fun heq => ?_⟩
  have htrait := (List.cons.inj (List.cons.inj (hiff.mp heq)).2).1
  exact Json.noConfusion htrait

/-- **The answer has one record for each id.** -/
theorem length_reduce (request : Request) (rows : List Row) :
    (request.reduce rows).length
      = {id | ∃ row ∈ rows, request.pattern.identity? row = some id}.ncard := by
  have hkeys : (↑(request.pattern.keysIn rows).toFinset : Set String)
      = Json.compact '' {id | ∃ row ∈ rows, request.pattern.identity? row = some id} := by
    ext key
    rw [List.coe_toFinset, Set.mem_ofPred_eq, Pattern.mem_keysIn, Set.mem_image]
    simp only [Pattern.key?, Option.map_eq_some_iff]
    constructor
    · rintro ⟨row, hmem, id, hid, rfl⟩
      exact ⟨id, ⟨row, hmem, hid⟩, rfl⟩
    · rintro ⟨id, ⟨row, hmem, hid⟩, rfl⟩
      exact ⟨row, hmem, id, hid, rfl⟩
  rw [reduce, fold_eq_gather, records, List.length_map, ← Set.ncard_image_of_injective _
    Json.compact_injective, ← hkeys, Set.ncard_coe_finset,
    List.toFinset_card_of_nodup (request.pattern.nodup_keysIn rows), ← keys_gather, Entries.keys,
    List.length_map]

end Request

end GraphRequest
