import GraphRequest.Proofs.Fold.Growth
import GraphRequest.Proofs.Fold.Repetition

/-!
# The shape of records

Which names a record has, and in which order, is settled by the request alone: first the fields,
then the words of the directives, then the names of the children.  A name that comes several times
keeps its first place.  The rows decide about the values only, and even of these something is known:
below the name of a child there is a list of records, again in the shape of the child, and the edges
are different values.

* `Pattern.ownNames` — the names of what is reported of an entity itself.
* `Json.mapRecords` — what is done to all records below the name of a child.
* `Request.Shaped` — that a record has the shape of a request, at every depth.
* `Request.shaped_recordOf` — the record of any rows has it.
* **`Request.shaped_of_mem_reduce`** — hence every record of every answer.
-/

namespace GraphRequest

/-! ## Different edges -/

namespace Json

lemma mem_of_mem_addNew {edges : List Json} {edge value : Json} (h : value ∈ addNew edges edge) :
    value ∈ edges ∨ value = edge := by
  rw [addNew] at h
  split at h
  · exact Or.inl h
  · simpa using h

lemma mem_of_mem_distinct {edges : List Json} {value : Json} (h : value ∈ distinct edges) :
    value ∈ edges := by
  induction edges using List.reverseRecOn with
  | nil => exact h
  | append_singleton edges edge ih =>
      rw [distinct_append_singleton] at h
      rcases mem_of_mem_addNew h with h | rfl
      · exact List.mem_append_left _ (ih h)
      · simp

/-- An edge is only added if none that is there agrees with it. -/
lemma pairwise_addNew {edges : List Json} (edge : Json)
    (h : edges.Pairwise fun value other => value.agrees other = false) :
    (addNew edges edge).Pairwise fun value other => value.agrees other = false := by
  rw [addNew]
  split
  · exact h
  · rename_i hnew
    refine List.pairwise_append.mpr ⟨h, List.pairwise_singleton _ _, ?_⟩
    intro value hvalue other hother
    obtain rfl := List.mem_singleton.mp hother
    have hdiffers : value.agrees other ≠ true := by
      intro hagrees
      exact hnew (List.any_eq_true.mpr ⟨value, hvalue, hagrees⟩)
    simpa using hdiffers

/-- No two of the different values among edges agree. -/
lemma pairwise_distinct (edges : List Json) :
    (distinct edges).Pairwise fun value other => value.agrees other = false := by
  induction edges using List.reverseRecOn with
  | nil => exact List.Pairwise.nil
  | append_singleton edges edge ih =>
      rw [distinct_append_singleton]
      exact pairwise_addNew edge ih

end Json

/-! ## The names in a record -/

namespace Pattern

variable (pattern : Pattern)

/-- The names under which an entity itself is reported: its fields, and the words of the directives
    that are set. -/
def ownNames : List String :=
  pattern.fields
    ++ ([Directive.labels, .relationships, .graph].filter pattern.asksFor).map Directive.word

lemma keys_directiveMembers (group : List Row) (directive : Directive) :
    Entries.keys (pattern.directiveMembers group directive)
      = ([directive].filter pattern.asksFor).map Directive.word := by
  rw [directiveMembers, List.filter_cons]
  split <;> rfl

/-- Whatever the rows of an entity are, they are reported under the same names. -/
lemma keys_membersOf_eq (group : List Row) :
    Entries.keys (pattern.membersOf group) = pattern.ownNames := by
  have hfields : Entries.keys (pattern.fields.map fun field =>
      (field, pattern.fieldValue group field)) = pattern.fields := by
    simp [Entries.keys, Function.comp_def]
  have hwords : [Directive.labels, .relationships, .graph]
      = [.labels] ++ [.relationships] ++ [.graph] := rfl
  rw [ownNames, hwords, List.filter_append, List.filter_append, List.map_append, List.map_append]
  simp only [membersOf_eq, Entries.keys_append, hfields, keys_directiveMembers, List.append_assoc]

/-- What is reported of an entity itself is found under these names. -/
lemma mem_keys_insertAll_membersOf {group : List Row} {name : String} :
    name ∈ Entries.keys (Entries.insertAll [] (pattern.membersOf group))
      ↔ name ∈ pattern.ownNames := by
  rw [Entries.mem_keys_insertAll, keys_membersOf_eq]
  simp

/-- That a record has the names of a pattern and its children, each where it comes first, and that
    its edges, unless a child goes by their word, are different values and none at a root. -/
structure OwnShaped (childNames : List String) (record : Record) : Prop where
  names : Entries.keys record = (pattern.ownNames ++ childNames).eraseDups
  edges : pattern.relationships = true → Directive.relationships.word ∉ childNames →
    ∃ edges, record.lookup Directive.relationships.word = some (.array edges)
      ∧ (∀ edge ∈ edges, edge ≠ .null)
      ∧ edges.Pairwise (fun edge other => edge.agrees other = false)
      ∧ (pattern.isRoot = true → edges = [])

/-- The edges that are reported are different values. -/
lemma exists_edges_directiveValue (group : List Row) :
    ∃ edges, pattern.directiveValue group .relationships = .array edges
      ∧ (∀ edge ∈ edges, edge ≠ .null)
      ∧ edges.Pairwise (fun edge other => edge.agrees other = false)
      ∧ (pattern.isRoot = true → edges = []) := by
  refine ⟨_, rfl, ?_⟩
  split
  · simp
  · rename_i hroot
    refine ⟨?_, Json.pairwise_distinct _, fun h => absurd h hroot⟩
    intro edge hedge
    obtain ⟨row, -, hpresent⟩ := List.mem_filterMap.mp (Json.mem_of_mem_distinct hedge)
    exact (Row.present?_eq_some_iff.mp hpresent).2

end Pattern

/-! ## The shape of a record -/

/-- Changes every record in an array of records. -/
def Json.mapRecords (f : Record → Record) : Json → Json
  | .array items => .array <| items.map fun
    | .object members => .object (f members)
    | item => item
  | value => value

lemma Json.mapRecords_array (f : Record → Record) (records : List Record) :
    (Json.array (records.map .object)).mapRecords f = .array ((records.map f).map .object) := by
  simp [mapRecords]

namespace Request

mutual

/-- **That a record has the shape of a request**: it has the names that were asked for, in order,
    and under the names of the children records in the shape of these. -/
def Shaped : Request → Record → Prop
  | ⟨pattern, children⟩, record =>
    pattern.OwnShaped (children.map fun child => child.pattern.name) record
      ∧ ShapedBelow children record
termination_by structural request => request

/-- That a record has under the name of each child an array of records in the shape of the child. -/
def ShapedBelow : List Request → Record → Prop
  | [], _ => True
  | child :: children, record =>
    (∃ found : List Record, record.lookup child.pattern.name = some (.array (found.map .object))
        ∧ ∀ below ∈ found, Shaped child below)
      ∧ ShapedBelow children record
termination_by structural children => children

end

lemma shapedBelow_of_forall {children : List Request} {record : Record}
    (h : ∀ child ∈ children, ∃ found : List Record,
      record.lookup child.pattern.name = some (.array (found.map .object))
        ∧ ∀ below ∈ found, child.Shaped below) : ShapedBelow children record := by
  induction children with
  | nil => trivial
  | cons child children ih =>
      obtain ⟨hchild, hchildren⟩ := List.forall_mem_cons.mp h
      exact ⟨hchild, ih hchildren⟩

/-- The own part of a record has the shape of the node. -/
lemma ownShaped_recordOf (request : Request) (group : List Row) :
    request.pattern.OwnShaped request.childNames (request.recordOf group) where
  names := by
    rw [recordOf, Entries.keys_insertAll_nil, Entries.keys_append, Pattern.keys_membersOf_eq,
      keys_regroupBelow]
    rfl
  edges hasks hfree := by
    have hasks : request.pattern.asksFor .relationships = true := hasks
    obtain ⟨edges, hedges, hshape⟩ := request.pattern.exists_edges_directiveValue group
    refine ⟨edges, ?_, hshape⟩
    rw [lookup_recordOf_of_notMem hfree, Pattern.lookup_directive_membersOf hasks, hedges]

/-- **The record of any rows has the shape of the request**, if no two children of a node share a
    name.  What is below the name of a child are the records of groups of rows, so that the same can
    be said of these. -/
theorem shaped_recordOf (request : Request)
    (hnames : ∀ node ∈ request.nodes, node.childNames.Nodup) (group : List Row) :
    request.Shaped (request.recordOf group) := by
  induction request using Request.induction generalizing group with
  | node pattern children ih =>
      let request : Request := ⟨pattern, children⟩
      refine ⟨request.ownShaped_recordOf group, shapedBelow_of_forall ?_⟩
      intro child hchild
      have hholds := holds_recordOf (hnames request (mem_nodes_self request)) group
      refine ⟨child.regroup group, hholds.children child hchild, ?_⟩
      intro below hbelow
      obtain ⟨key, rows, -, rfl⟩ := exists_group_of_mem_regroup hbelow
      refine ih child hchild ?_ rows
      intro node hnode
      exact hnames node (mem_nodes.mpr (Or.inr (nodes_subset_nodesOf hchild hnode)))

/-- **Records have the shape of the request.**  Whatever the rows are, every record of the answer
    has the names that were asked for and no others, each in its place, and so have all records
    inside it. -/
theorem shaped_of_mem_reduce {request : Request} (haccepted : request.Accepted) {rows : List Row}
    {record : Record} (h : record ∈ request.reduce rows) : request.Shaped record := by
  rw [reduce_eq_regroup] at h
  obtain ⟨key, group, -, rfl⟩ := exists_group_of_mem_regroup h
  exact request.shaped_recordOf (fun _ hnode => haccepted.wellFormed.nodup_childNames hnode) group

/-- A gene asks for its name twice and for its labels, and calls its traits `labels`.  Its records
    have two names, and the traits stand in the place of the labels. -/
theorem shaped_gene_with_traits_called_labels :
    ∃ (request : Request) (row : Row) (record : Record), request.Accepted
      ∧ request.pattern.ownNames = ["name", "name", "labels"]
      ∧ record ∈ request.reduce [row] ∧ request.Shaped record
      ∧ Entries.keys record = ["name", "labels"]
      ∧ record.lookup "labels" = some (.array [.object
        [("p", .string "x"), ("relationships", .array [.string "e"])]]) := by
  let text := "Gene() \x7b name, name, labels, "
    ++ "Trait(relationship: \":has\") as labels \x7b relationships, p \x7d \x7d"
  have htokens : Token.ofText text
      = [.ident "Gene", .punctuation .leftParen, .punctuation .rightParen, .punctuation .leftBrace,
        .ident "name", .punctuation .comma, .ident "name", .punctuation .comma, .ident "labels",
        .punctuation .comma, .ident "Trait", .punctuation .leftParen, .ident "relationship",
        .punctuation .colon, .string ":has", .punctuation .rightParen, .ident "as",
        .ident "labels", .punctuation .leftBrace, .ident "relationships", .punctuation .comma,
        .ident "p", .punctuation .rightBrace, .punctuation .rightBrace] := by
    decide +kernel
  let request : Request :=
    ⟨⟨"Gene", "Gene", [], none, true, false, false, ["name", "name"], none⟩,
      [⟨⟨"Trait", "labels", [], some ":has", false, true, false, ["p"], some "Gene"⟩, []⟩]⟩
  have haccepted : request.Accepted := by
    refine ⟨text, ?_⟩
    rw [ofText, htokens]
    rfl
  let row : Row := [("__Geneid", .bool true), ("Gene.name", .string "abc"),
    ("__Genelabels", .array [.string "Gene"]), ("__labelsid", .bool true),
    ("__labelsr", .string "e"), ("labels.p", .string "x")]
  have hrecord : [("name", .string "abc"), ("labels", .array [.object [("p", .string "x"),
      ("relationships", .array [.string "e"])]])] ∈ request.reduce [row] :=
    List.mem_singleton.mpr rfl
  have hshaped := shaped_of_mem_reduce haccepted hrecord
  exact ⟨request, row, _, haccepted, rfl, hrecord, hshaped, hshaped.1.names, rfl⟩

end Request

end GraphRequest
