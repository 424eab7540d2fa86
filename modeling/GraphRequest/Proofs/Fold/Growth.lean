import GraphRequest.Proofs.Fold.Reporting

/-!
# Answers only grow

Rows may be reduced before all of them have come in.  What is reported then is not final: an entity
may turn up later, below one that is known or beside it, and a known one may be reached by another
edge.  Nothing else can happen.

* `Pattern.groups_append` — more rows go to the ends of the groups there are, and those with new ids
  make new groups after all others.
* `Request.Grows` — that records are found again at the front of later ones, under the same names in
  the same order.  The arrays of children may have grown in the same sense, the list of edges may
  have become longer, and every other value is what it was.
* **`Request.reduce_grows`** — the answer to rows grows into the answer to these rows and more.
-/

namespace GraphRequest

/-! ## Groups of more rows -/

namespace Pattern

variable (pattern : Pattern)

/-- The rows among some that have no id which other rows have. -/
def newRows (rows more : List Row) : List Row :=
  more.filter fun row => (pattern.key? row).all fun key => !(pattern.keysIn rows).contains key

variable {pattern}

lemma newRows_append (rows more last : List Row) :
    pattern.newRows rows (more ++ last) = pattern.newRows rows more ++ pattern.newRows rows last :=
  List.filter_append ..

lemma rowsWith_append (key : String) (rows more : List Row) :
    pattern.rowsWith key (rows ++ more) = pattern.rowsWith key rows ++ pattern.rowsWith key more :=
  List.filter_append ..

/-- Where an id is new, its rows are new. -/
lemma rowsWith_newRows {key : String} {rows : List Row} (h : key ∉ pattern.keysIn rows)
    (more : List Row) : pattern.rowsWith key (pattern.newRows rows more)
      = pattern.rowsWith key more := by
  rw [rowsWith, newRows, List.filter_filter, rowsWith]
  refine List.filter_congr fun row _ => ?_
  by_cases hkey : pattern.key? row = some key
  · simp [hkey, h]
  · simp [hkey]

lemma notMem_keysIn_of_mem_newRows {key : String} {rows more : List Row}
    (h : key ∈ pattern.keysIn (pattern.newRows rows more)) : key ∉ pattern.keysIn rows := by
  obtain ⟨row, hrow, hkey⟩ := pattern.mem_keysIn.mp h
  simpa [hkey] using (List.mem_filter.mp hrow).2

/-- The ids of more rows come after those that were there. -/
lemma keysIn_append (rows more : List Row) :
    pattern.keysIn (rows ++ more)
      = pattern.keysIn rows ++ pattern.keysIn (pattern.newRows rows more) := by
  induction more using List.reverseRecOn with
  | nil => simp [newRows, keysIn]
  | append_singleton more row ih =>
      rw [← List.append_assoc, newRows_append]
      cases hkey : pattern.key? row with
      | none =>
          have hnew : pattern.newRows rows [row] = [row] := by simp [newRows, hkey]
          rw [pattern.keysIn_append_of_none hkey, hnew, pattern.keysIn_append_of_none hkey, ih]
      | some key =>
          rw [pattern.keysIn_append_of_some hkey, ih]
          by_cases hold : key ∈ pattern.keysIn rows
          · have hnone : pattern.newRows rows [row] = [] := by simp [newRows, hkey, hold]
            simp [hnone, hold]
          · have hnew : pattern.newRows rows [row] = [row] := by simp [newRows, hkey, hold]
            rw [hnew, pattern.keysIn_append_of_some hkey]
            split <;> simp_all

/-- **More rows go to the ends of the groups**, or make new groups after them. -/
theorem groups_append (rows more : List Row) :
    pattern.groups (rows ++ more)
      = (pattern.groups rows).map (fun (key, group) => (key, group ++ pattern.rowsWith key more))
        ++ pattern.groups (pattern.newRows rows more) := by
  rw [groups, keysIn_append, List.map_append]
  congr 1
  · rw [groups, List.map_map]
    exact List.map_congr_left fun key _ => by rw [Function.comp_apply, rowsWith_append]
  · rw [groups]
    refine List.map_congr_left fun key hkey => ?_
    have hnew := notMem_keysIn_of_mem_newRows hkey
    rw [rowsWith_append, pattern.rowsWith_eq_nil hnew, List.nil_append, rowsWith_newRows hnew]

/-! ## The own part of a record -/

/-- That a record goes on as another one does, those names apart under which children report.  The
    names are the same in the same order, and so are the values, but for the list of edges, which
    may have become longer. -/
structure OwnGrows (pattern : Pattern) (childNames : List String) (record later : Record) :
    Prop where
  names : Entries.keys record = Entries.keys later
  edges : pattern.relationships = true → Directive.relationships.word ∉ childNames →
    ∃ edges more, record.lookup Directive.relationships.word = some (.array edges)
      ∧ later.lookup Directive.relationships.word = some (.array (edges ++ more))
  others : ∀ name, name ∉ childNames →
    ¬ (pattern.relationships = true ∧ name = Directive.relationships.word) →
      record.lookup name = later.lookup name

lemma headD_append {group : List Row} (h : group ≠ []) (more : List Row) :
    (group ++ more).headD [] = group.headD [] := by
  obtain ⟨first, rest, rfl⟩ := List.exists_cons_of_ne_nil h
  rfl

/-- The row that created an entity is the first one, whatever rows come later. -/
lemma fieldValue_append {group : List Row} (h : group ≠ []) (more : List Row) (field : String) :
    pattern.fieldValue (group ++ more) field = pattern.fieldValue group field := by
  rw [fieldValue, fieldValue, headD_append h]

lemma directiveMembers_append {group : List Row} (h : group ≠ []) (more : List Row)
    {directive : Directive} (hdirective : directive ≠ .relationships) :
    pattern.directiveMembers (group ++ more) directive
      = pattern.directiveMembers group directive := by
  rw [directiveMembers, directiveMembers]
  cases directive with
  | labels => rw [directiveValue, directiveValue, headD_append h]
  | relationships => exact absurd rfl hdirective
  | graph => rw [directiveValue, directiveValue, headD_append h]

variable (pattern) in
/-- Later rows add edges behind those that were there. -/
lemma directiveValue_relationships_append (group more : List Row) :
    ∃ edges new, pattern.directiveValue group .relationships = .array edges
      ∧ pattern.directiveValue (group ++ more) .relationships = .array (edges ++ new) := by
  simp only [directiveValue]
  split
  · exact ⟨[], [], rfl, rfl⟩
  · rw [List.filterMap_append, Json.distinct_append, Json.foldl_addNew]
    exact ⟨_, _, rfl, rfl⟩

lemma keys_membersOf (group more : List Row) :
    Entries.keys (pattern.membersOf group) = Entries.keys (pattern.membersOf more) := by
  have hdirective : ∀ directive, Entries.keys (pattern.directiveMembers group directive)
      = Entries.keys (pattern.directiveMembers more directive) := by
    intro directive
    rw [directiveMembers, directiveMembers]
    split <;> rfl
  simp only [membersOf_eq, Entries.keys_append, hdirective]
  simp [Entries.keys]

end Pattern

namespace Request

open Pattern

/-- Later rows of an entity leave its record as it was, but for its edges and what is below. -/
lemma ownGrows_recordOf (request : Request) {group : List Row} (h : group ≠ [])
    (more : List Row) :
    request.pattern.OwnGrows request.childNames (request.recordOf group)
      (request.recordOf (group ++ more)) where
  names := by
    refine Entries.keys_insertAll_congr rfl ?_
    rw [Entries.keys_append, Entries.keys_append, keys_membersOf group (group ++ more),
      keys_regroupBelow, keys_regroupBelow]
  edges hasks hfree := by
    obtain ⟨edges, new, hbefore, hafter⟩ :=
      request.pattern.directiveValue_relationships_append group more
    have hasks : request.pattern.asksFor .relationships = true := hasks
    refine ⟨edges, new, ?_, ?_⟩
    · rw [lookup_recordOf_of_notMem hfree, lookup_directive_membersOf hasks, hbefore]
    · rw [lookup_recordOf_of_notMem hfree, lookup_directive_membersOf hasks, hafter]
  others name hfree hname := by
    have hedges : ∀ group, (request.pattern.directiveMembers group .relationships).reverse.lookup
        name = none := fun group =>
      request.pattern.lookup_directiveMembers group fun hasks hword => hname ⟨hasks, hword⟩
    have hfields : (fun field => (field, request.pattern.fieldValue (group ++ more) field))
        = fun field => (field, request.pattern.fieldValue group field) :=
      funext fun field => by rw [fieldValue_append h]
    rw [lookup_recordOf_of_notMem hfree, lookup_recordOf_of_notMem hfree,
      lookup_reverse_membersOf, lookup_reverse_membersOf, hedges, hedges, hfields,
      directiveMembers_append h more (by decide), directiveMembers_append h more (by decide)]

/-! ## Records that grow -/

mutual

/-- That records grow into others: each is found again in its place, with the same names in the same
    order, under the names of children arrays that have grown in the same way, and otherwise the
    same values, but for a list of edges that may have become longer. -/
def Grows : Request → List Record → List Record → Prop
  | ⟨pattern, children⟩, records, grown =>
    records.length ≤ grown.length
      ∧ ∀ (position : Nat) (record later : Record), records[position]? = some record →
        grown[position]? = some later →
          pattern.OwnGrows (children.map fun child => child.pattern.name) record later
            ∧ GrowBelow children record later
termination_by structural request => request

/-- That under the names of the children records have arrays of records that grow. -/
def GrowBelow : List Request → Record → Record → Prop
  | [], _, _ => True
  | child :: children, record, later =>
    (∃ found grown : List Record,
        record.lookup child.pattern.name = some (.array (found.map .object))
          ∧ later.lookup child.pattern.name = some (.array (grown.map .object))
          ∧ child.Grows found grown)
      ∧ GrowBelow children record later
termination_by structural children => children

end

lemma growBelow_of_forall {children : List Request} {record later : Record}
    (h : ∀ child ∈ children, ∃ found grown : List Record,
      record.lookup child.pattern.name = some (.array (found.map .object))
        ∧ later.lookup child.pattern.name = some (.array (grown.map .object))
        ∧ child.Grows found grown) : GrowBelow children record later := by
  induction children with
  | nil => trivial
  | cons child children ih =>
      obtain ⟨hchild, hchildren⟩ := List.forall_mem_cons.mp h
      exact ⟨hchild, ih hchildren⟩

lemma regroup_eq_map_recordOf (request : Request) (rows : List Row) :
    request.regroup rows
      = (request.pattern.groups rows).map fun entry => request.recordOf entry.2 := by
  obtain ⟨pattern, children⟩ := request
  rw [regroup]
  rfl

/-- **The records of rows grow**, at every level.  The groups of the rows are found again among the
    groups of all rows, in their places and with rows added at the end, so that what was said for
    one level holds for the next. -/
theorem grows_regroup (request : Request)
    (hnames : ∀ node ∈ request.nodes, node.childNames.Nodup) (rows more : List Row) :
    request.Grows (request.regroup rows) (request.regroup (rows ++ more)) := by
  induction request using Request.induction generalizing rows more with
  | node pattern children ih =>
      let request : Request := ⟨pattern, children⟩
      have hbefore := request.regroup_eq_map_recordOf rows
      have hafter := request.regroup_eq_map_recordOf (rows ++ more)
      rw [groups_append, List.map_append, List.map_map] at hafter
      rw [hbefore, hafter]
      refine ⟨by simp, fun position record later hrecord hlater => ?_⟩
      -- the group a record is made of, and the rows that were added to it
      rw [List.getElem?_map, Option.map_eq_some_iff] at hrecord
      obtain ⟨⟨key, group⟩, hgroup, rfl⟩ := hrecord
      have hposition : position < (pattern.groups rows).length :=
        (List.getElem?_eq_some_iff.mp hgroup).1
      rw [List.getElem?_append_left (by simpa using hposition), List.getElem?_map, hgroup] at hlater
      obtain rfl : request.recordOf (group ++ pattern.rowsWith key more) = later := by
        simpa using hlater
      have hne := pattern.ne_nil_of_mem_groups (List.mem_of_getElem? hgroup)
      refine ⟨request.ownGrows_recordOf hne _, growBelow_of_forall fun child hchild => ?_⟩
      have hholds := fun group =>
        (holds_recordOf (hnames request (mem_nodes_self request)) group).children child hchild
      refine ⟨_, _, hholds _, hholds _, ih child hchild (fun node hnode => ?_) _ _⟩
      exact hnames node (mem_nodes.mpr (Or.inr (nodes_subset_nodesOf hchild hnode)))

/-- **Answers only grow.**  Whatever rows come later, the answer to the rows so far is found again
    in the answer to all of them. -/
theorem reduce_grows {request : Request} (h : request.Accepted) (rows more : List Row) :
    request.Grows (request.reduce rows) (request.reduce (rows ++ more)) := by
  simp only [reduce, fold_eq_gather, records_gather]
  exact grows_regroup request (fun _ hnode => h.wellFormed.nodup_childNames hnode) rows more

/-- A gene is reported with a trait.  Then the trait is reached by another edge, another trait turns
    up below the gene, and another gene beside it. -/
theorem reduce_grows_gene_with_traits :
    ∃ (request : Request) (rows more : List Row), request.Accepted
      ∧ request.reduce rows
        = [[("name", .string "abc"),
          ("t", .array [.object [("p", .null), ("relationships", .array [.string "a"])]])]]
      ∧ request.reduce (rows ++ more)
        = [[("name", .string "abc"),
            ("t", .array [.object [("p", .null), ("relationships", .array [.string "a",
              .string "b"])], .object [("p", .null), ("relationships", .array [])]])],
          [("name", .null), ("t", .array [])]]
      ∧ request.Grows (request.reduce rows) (request.reduce (rows ++ more)) := by
  let row : Row := [("__Geneid", .string "g"), ("Gene.name", .string "abc"), ("__tid", .bool true),
    ("__tr", .string "a")]
  let more : List Row :=
    [[("__Geneid", .string "g"), ("__tid", .bool true), ("__tr", .string "b"), ("t.p", .bool true)],
      [("__Geneid", .string "g"), ("__tid", .bool false)], [("__Geneid", .string "h")]]
  have haccepted : Accepted ⟨⟨"Gene", "Gene", [], none, false, false, false, ["name"], none⟩,
      [⟨⟨"Trait", "t", [], some ":has", false, true, false, ["p"], some "Gene"⟩, []⟩]⟩ :=
    ⟨_, ofText_gene_with_traits⟩
  exact ⟨_, [row], more, haccepted, rfl, rfl, reduce_grows haccepted [row] more⟩

end Request

end GraphRequest
