import GraphRequest.Proofs.Fold.Shape

/-!
# Aliases are only names

What a node goes by decides the names of its columns and the name of its arrays, and nothing else.
Take two requests that ask for the same under different names, and let the columns of the rows be
renamed from the one to the other: the records are the same, up to the names of the arrays.

* `Request.AskAlike` — that two requests ask for the same.
* `Request.columnRenaming` — which column of the one stands for which of the other.  Columns do not
  collide, so that both ways a column stands for one (`Request.oneToOne_columnRenaming`).
* `Row.renamed` — a row with its columns renamed; other columns are dropped.
* `Request.rename` — a record with the names of its arrays changed, at every depth.
* `Pattern.CarriedTo` — that a change of rows takes every column of a node to the one it stands for.
  This is all that is needed of it: **`Request.regroup_of_carried`**.
* **`Request.reduce_renamed`** — hence reducing renamed rows renames the records.
-/

namespace GraphRequest

/-! ## Renaming columns -/

/-- That in a table each column stands for one name and each name for one column. -/
def OneToOne (table : List (String × String)) : Prop :=
  ∀ pair ∈ table, ∀ other ∈ table, pair.1 = other.1 ↔ pair.2 = other.2

lemma OneToOne.lookup {table : List (String × String)} (h : OneToOne table)
    {column name : String} (hmem : (column, name) ∈ table) :
    table.lookup column = some name := by
  have hkey : column ∈ Entries.keys table := List.mem_map_of_mem hmem
  cases hlookup : table.lookup column with
  | none => exact absurd hkey (Entries.lookup_eq_none_iff.mp hlookup)
  | some found =>
      have hfound := Entries.mem_of_lookup hlookup
      exact congrArg some ((h _ hfound _ hmem).mp rfl)

/-- A row with its columns renamed.  A column that the table does not have is dropped. -/
def Row.renamed (table : List (String × String)) (row : Row) : Row :=
  row.filterMap fun (column, value) => (table.lookup column).map fun name => (name, value)

/-- The value of a column is found where the column went. -/
lemma Row.lookup_renamed {table : List (String × String)} (h : OneToOne table)
    {column name : String} (hmem : (column, name) ∈ table) (row : Row) :
    (row.renamed table).lookup name = row.lookup column := by
  have hself := h.lookup hmem
  induction row with
  | nil => rfl
  | cons cell row ih =>
      obtain ⟨other, value⟩ := cell
      rw [renamed] at ih ⊢
      by_cases hother : other = column
      · subst hother
        simp [hself]
      · have hcolumn : (column == other) = false := by simp [Ne.symm hother]
        cases hlookup : table.lookup other with
        | none => simp [List.lookup_cons, hlookup, hcolumn, ih]
        | some found =>
            have hfound : name ≠ found := by
              intro heq
              exact hother ((h _ (Entries.mem_of_lookup hlookup) _ hmem).mpr heq.symm)
            have hname : (name == found) = false := by simp [hfound]
            simp [List.lookup_cons, hlookup, hcolumn, hname, ih]

/-! ## Asking for the same -/

namespace Pattern

/-- What columns can be named for a node: its id, its edge, its labels, the entity as a whole, and
    its fields. -/
def generated (pattern : Pattern) : List Column :=
  [.id, .edge, .labels, .graph] ++ pattern.fields.map .field

/-- That two nodes ask for the same of an entity, whatever they go by. -/
structure AsksAlike (pattern other : Pattern) : Prop where
  fields : pattern.fields = other.fields
  directives : pattern.asksFor = other.asksFor
  root : pattern.isRoot = other.isRoot

end Pattern

namespace Request

mutual

/-- That two requests ask for the same, whatever their nodes go by. -/
def AskAlike : Request → Request → Prop
  | ⟨pattern, children⟩, ⟨pattern', children'⟩ =>
    pattern.AsksAlike pattern' ∧ AskAlikeBelow children children'
termination_by structural request => request

/-- That the children of two nodes ask for the same, one by one. -/
def AskAlikeBelow : List Request → List Request → Prop
  | [], [] => True
  | child :: children, child' :: children' =>
    AskAlike child child' ∧ AskAlikeBelow children children'
  | _, _ => False
termination_by structural children => children

end

/-- Which column of a request stands for which column of another one: nodes stand for each other in
    the order of the trees, and so do the columns of each. -/
def columnRenaming (request other : Request) : List (String × String) :=
  (request.nodes.zip other.nodes).flatMap fun (node, node') =>
    node.pattern.generated.map fun column =>
      (node.pattern.column column, node'.pattern.column column)

mutual

/-- A record with the names of its arrays changed from those of a request to those of another. -/
def rename : Request → Request → Record → Record
  | ⟨_, children⟩, ⟨_, children'⟩, record => record.map (renameEntry children children')
termination_by structural request => request

/-- An entry with the name of a child changed, and with it what is below.  Another entry stays as it
    is. -/
def renameEntry : List Request → List Request → String × Json → String × Json
  | child :: children, child' :: children', entry =>
    if entry.1 = child.pattern.name then
      (child'.pattern.name, entry.2.mapRecords (rename child child'))
    else renameEntry children children' entry
  | _, _, entry => entry
termination_by structural children => children

end

/-- That the array of a child is never in the place of anything else in a record of the node. -/
structure ChildrenApart (node : Request) : Prop where
  names : node.childNames.Nodup
  own : node.pattern.ownNames.Disjoint node.childNames

/-! ## Columns stand for each other -/

mutual

/-- Requests that ask for the same have the same number of nodes. -/
theorem length_nodes_of_askAlike : ∀ (request other : Request), request.AskAlike other →
    request.nodes.length = other.nodes.length
  | ⟨pattern, children⟩, ⟨pattern', children'⟩ => by
      rintro ⟨-, hbelow⟩
      have hlength := length_nodesOf_of_askAlikeBelow children children' hbelow
      rw [nodes_eq, nodes_eq, List.length_cons, List.length_cons, hlength]
termination_by structural request => request

lemma length_nodesOf_of_askAlikeBelow : ∀ (children others : List Request),
    AskAlikeBelow children others → (nodesOf children).length = (nodesOf others).length
  | [], [] => fun _ => rfl
  | child :: children, child' :: children' => by
      rintro ⟨hchild, hchildren⟩
      have hnodes := length_nodes_of_askAlike child child' hchild
      have hbelow := length_nodesOf_of_askAlikeBelow children children' hchildren
      rw [nodesOf_cons, nodesOf_cons, List.length_append, List.length_append, hnodes, hbelow]
  | [], _ :: _ => nofun
  | _ :: _, [] => nofun
termination_by structural children => children

end

/-- **A column stands for one column**, both ways: it tells its node, and the node the one that
    stands in its place. -/
theorem oneToOne_columnRenaming {request other : Request} (hwell : request.WellFormed)
    (hwell' : other.WellFormed) (halike : request.AskAlike other) :
    OneToOne (request.columnRenaming other) := by
  have hlength := length_nodes_of_askAlike request other halike
  have hfst : ((request.nodes.zip other.nodes).map Prod.fst).Nodup := by
    rw [List.map_fst_zip hlength.le]
    exact hwell.nodup_nodes
  have hsnd : ((request.nodes.zip other.nodes).map Prod.snd).Nodup := by
    rw [List.map_snd_zip hlength.ge]
    exact hwell'.nodup_nodes
  intro entry hentry entry' hentry'
  obtain ⟨pair, hpair, hcolumn⟩ := List.mem_flatMap.mp hentry
  obtain ⟨column, -, rfl⟩ := List.mem_map.mp hcolumn
  obtain ⟨pair', hpair', hcolumn'⟩ := List.mem_flatMap.mp hentry'
  obtain ⟨column', -, rfl⟩ := List.mem_map.mp hcolumn'
  have hnodes := List.of_mem_zip hpair
  have hnodes' := List.of_mem_zip hpair'
  constructor
  · intro heq
    obtain ⟨hnode, rfl⟩ := hwell.eq_of_column_eq hnodes.1 hnodes'.1 heq
    rw [List.inj_on_of_nodup_map hfst hpair hpair' hnode]
  · intro heq
    obtain ⟨hnode, rfl⟩ := hwell'.eq_of_column_eq hnodes.2 hnodes'.2 heq
    rw [List.inj_on_of_nodup_map hsnd hpair hpair' hnode]

end Request

/-! ## What rows say after the change -/

namespace Pattern

/-- That a change of rows takes the columns of a node to those of the node that stands for it. -/
def CarriedTo (pattern other : Pattern) (change : Row → Row) : Prop :=
  ∀ column ∈ pattern.generated, ∀ row,
    (change row).lookup (other.column column) = row.lookup (pattern.column column)

namespace CarriedTo

variable {pattern other : Pattern} {change : Row → Row} (h : pattern.CarriedTo other change)

include h

lemma present? (column : Column) (hcolumn : column ∈ pattern.generated) (row : Row) :
    (change row).present? (other.column column) = row.present? (pattern.column column) := by
  rw [Row.present?, Row.present?, h column hcolumn]

/-- Rows are grouped as before the change. -/
lemma groups (rows : List Row) :
    other.groups (rows.map change)
      = Entries.mapValues (fun group => group.map change) (pattern.groups rows) := by
  have hkey : ∀ row, other.key? (change row) = pattern.key? row := by
    intro row
    have hid := h.present? .id (by simp [generated]) row
    exact congrArg (Option.map Json.compact) hid
  have hkeys : other.keysIn (rows.map change) = pattern.keysIn rows := by
    simp [keysIn, List.filterMap_map, hkey]
  have hrows : ∀ key, other.rowsWith key (rows.map change)
      = (pattern.rowsWith key rows).map change := by
    intro key
    simp [rowsWith, List.filter_map, Function.comp_def, hkey]
  simp [Pattern.groups, hkeys, hrows, Entries.mapValues]

lemma lookup_headD (column : Column) (hcolumn : column ∈ pattern.generated) (group : List Row) :
    ((group.map change).headD []).lookup (other.column column)
      = (group.headD []).lookup (pattern.column column) := by
  cases group with
  | nil => rfl
  | cons row group => exact h column hcolumn row

lemma fieldValue (group : List Row) {field : String} (hfield : field ∈ pattern.fields) :
    other.fieldValue (group.map change) field = pattern.fieldValue group field := by
  have hvalue := h.lookup_headD (.field field) (by simp [generated, hfield]) group
  exact congrArg (fun value : Option Json => value.getD .null) hvalue

lemma directiveValue (halike : pattern.AsksAlike other) (group : List Row)
    (directive : Directive) :
    other.directiveValue (group.map change) directive
      = pattern.directiveValue group directive := by
  cases directive with
  | labels =>
      have hlabels := h.lookup_headD .labels (by simp [generated]) group
      exact congrArg (fun value : Option Json => value.getD (.array [])) hlabels
  | relationships =>
      have hedge : ∀ row,
          (change row).present? other.edgeColumn = row.present? pattern.edgeColumn :=
        h.present? .edge (by simp [generated])
      simp [Pattern.directiveValue, halike.root, List.filterMap_map, hedge]
  | graph =>
      have hgraph := h.lookup_headD .graph (by simp [generated]) group
      exact congrArg (fun value : Option Json => value.getD .null) hgraph

/-- The rows of an entity say the same of it as before the change. -/
lemma membersOf (halike : pattern.AsksAlike other) (group : List Row) :
    other.membersOf (group.map change) = pattern.membersOf group := by
  have hfields : other.fields.map (fun field => (field, other.fieldValue (group.map change) field))
      = pattern.fields.map fun field => (field, pattern.fieldValue group field) := by
    rw [← halike.fields]
    exact List.map_congr_left fun field hfield => by rw [h.fieldValue group hfield]
  have hdirectives : ∀ directive, other.directiveMembers (group.map change) directive
      = pattern.directiveMembers group directive := by
    intro directive
    rw [directiveMembers, directiveMembers, halike.directives, h.directiveValue halike]
  rw [membersOf_eq, membersOf_eq, hfields, hdirectives, hdirectives, hdirectives]

end CarriedTo

end Pattern

/-! ## What records are after the change -/

namespace Request

/-- The arrays of the children stand at the end of a record, each under its own name. -/
lemma recordOf_eq_append {request : Request} (hapart : request.ChildrenApart) (group : List Row) :
    request.recordOf group
      = Entries.insertAll [] (request.pattern.membersOf group)
        ++ regroupBelow request.children group := by
  rw [recordOf, Entries.insertAll_append, Entries.insertAll_eq_append]
  · rw [keys_regroupBelow]
    exact hapart.names
  · intro name hown hchild
    rw [keys_regroupBelow] at hchild
    exact hapart.own (Pattern.mem_keys_insertAll_membersOf _ |>.mp hown) hchild

/-- An entry that is not of a child stays as it is. -/
lemma renameEntry_eq_self {children others : List Request} {entry : String × Json}
    (h : entry.1 ∉ children.map fun child => child.pattern.name) :
    renameEntry children others entry = entry := by
  induction children generalizing others with
  | nil => cases others <;> rfl
  | cons child children ih =>
      cases others with
      | nil => rfl
      | cons child' others =>
          rw [List.map_cons, List.mem_cons, not_or] at h
          rw [renameEntry, if_neg h.1, ih h.2]

/-- What is reported of an entity itself is not renamed. -/
lemma map_renameEntry_membersOf {node : Request} (hapart : node.ChildrenApart)
    (others : List Request) (group : List Row) :
    (Entries.insertAll [] (node.pattern.membersOf group)).map (renameEntry node.children others)
      = Entries.insertAll [] (node.pattern.membersOf group) := by
  refine (List.map_congr_left fun entry hentry => ?_).trans (List.map_id _)
  refine renameEntry_eq_self fun hchild => ?_
  have hown : entry.1 ∈ node.pattern.ownNames :=
    node.pattern.mem_keys_insertAll_membersOf.mp (List.mem_map_of_mem hentry)
  exact hapart.own hown hchild

/-- The arrays of children do not have the name of another child. -/
lemma map_renameEntry_regroupBelow {child child' : Request} {children others : List Request}
    (hnew : child.pattern.name ∉ children.map fun child => child.pattern.name)
    (group : List Row) :
    (regroupBelow children group).map (renameEntry (child :: children) (child' :: others))
      = (regroupBelow children group).map (renameEntry children others) := by
  refine List.map_congr_left fun entry hentry => ?_
  have hname : entry.1 ∈ Entries.keys (regroupBelow children group) := List.mem_map_of_mem hentry
  rw [keys_regroupBelow] at hname
  have hne : entry.1 ≠ child.pattern.name := by
    intro heq
    rw [heq] at hname
    exact hnew hname
  rw [renameEntry, if_neg hne]

mutual

/-- **Reducing changed rows renames the records**, for the rows of any entity, as long as the change
    takes every column to the one that stands for it. -/
theorem regroup_of_carried {change : Row → Row} : ∀ (request other : Request),
    request.AskAlike other →
      (∀ pair ∈ request.nodes.zip other.nodes, pair.1.pattern.CarriedTo pair.2.pattern change) →
        (∀ node ∈ request.nodes, node.ChildrenApart) →
          (∀ node ∈ other.nodes, node.ChildrenApart) → ∀ rows,
            other.regroup (rows.map change) = (request.regroup rows).map (request.rename other)
  | ⟨pattern, children⟩, ⟨pattern', children'⟩ => by
      rintro ⟨halike, hbelow⟩ hcarried hapart hapart' rows
      let request : Request := ⟨pattern, children⟩
      let other : Request := ⟨pattern', children'⟩
      rw [nodes_eq, nodes_eq, List.zip_cons_cons] at hcarried
      obtain ⟨hown, hcarriedBelow⟩ := List.forall_mem_cons.mp hcarried
      obtain ⟨hself, hapartBelow⟩ := List.forall_mem_cons.mp hapart
      obtain ⟨hself', hapartBelow'⟩ := List.forall_mem_cons.mp hapart'
      have hchildren := regroupBelow_of_carried children children' hbelow hcarriedBelow hself.names
        hapartBelow hapartBelow'
      have hrecord : ∀ group, other.recordOf (group.map change)
          = request.rename other (request.recordOf group) := by
        intro group
        have hmembers := map_renameEntry_membersOf hself children' group
        rw [recordOf_eq_append hself', recordOf_eq_append hself, rename, List.map_append,
          hmembers, hchildren, hown.membersOf halike]
      rw [regroup_eq_map_recordOf, regroup_eq_map_recordOf, hown.groups,
        Entries.mapValues, List.map_map, List.map_map]
      exact List.map_congr_left fun entry _ => hrecord entry.2
termination_by structural request => request

/-- The arrays of the children are renamed one by one. -/
theorem regroupBelow_of_carried {change : Row → Row} : ∀ (children others : List Request),
    AskAlikeBelow children others →
      (∀ pair ∈ (nodesOf children).zip (nodesOf others),
        pair.1.pattern.CarriedTo pair.2.pattern change) →
        (children.map fun child => child.pattern.name).Nodup →
          (∀ node ∈ nodesOf children, node.ChildrenApart) →
            (∀ node ∈ nodesOf others, node.ChildrenApart) → ∀ group,
              regroupBelow others (group.map change)
                = (regroupBelow children group).map (renameEntry children others)
  | [], [] => by
      intros
      rfl
  | child :: children, child' :: children' => by
      rintro ⟨halike, hbelow⟩ hcarried hnames hapart hapart' group
      have hlength := length_nodes_of_askAlike child child' halike
      obtain ⟨hnew, hrest⟩ := List.nodup_cons.mp hnames
      rw [nodesOf_cons, nodesOf_cons, List.zip_append hlength] at hcarried
      obtain ⟨hcarriedChild, hcarriedRest⟩ := List.forall_mem_append.mp hcarried
      rw [nodesOf_cons] at hapart hapart'
      obtain ⟨hapartChild, hapartRest⟩ := List.forall_mem_append.mp hapart
      obtain ⟨hapartChild', hapartRest'⟩ := List.forall_mem_append.mp hapart'
      have hchild :=
        regroup_of_carried child child' halike hcarriedChild hapartChild hapartChild' group
      have hchildren := regroupBelow_of_carried children children' hbelow hcarriedRest hrest
        hapartRest hapartRest' group
      rw [regroupBelow, regroupBelow, List.map_cons, map_renameEntry_regroupBelow hnew, ← hchildren,
        renameEntry, if_pos rfl, Json.mapRecords_array, ← hchild]
  | [], _ :: _ => nofun
  | _ :: _, [] => nofun
termination_by structural children => children

end

/-- **Aliases are only names.**  Two accepted requests ask for the same, and in both no child goes
    by a name under which the node above it reports something of its own.  Then the one reports of
    rows with renamed columns what the other one reports of the rows themselves, with the names of
    the arrays changed. -/
theorem reduce_renamed {request other : Request} (haccepted : request.Accepted)
    (haccepted' : other.Accepted) (halike : request.AskAlike other)
    (hfree : ∀ node ∈ request.nodes, node.pattern.ownNames.Disjoint node.childNames)
    (hfree' : ∀ node ∈ other.nodes, node.pattern.ownNames.Disjoint node.childNames)
    (rows : List Row) :
    other.reduce (rows.map (Row.renamed (request.columnRenaming other)))
      = (request.reduce rows).map (request.rename other) := by
  have hwell := haccepted.wellFormed
  have hwell' := haccepted'.wellFormed
  have honeToOne := oneToOne_columnRenaming hwell hwell' halike
  have hcarried : ∀ pair ∈ request.nodes.zip other.nodes,
      pair.1.pattern.CarriedTo pair.2.pattern (Row.renamed (request.columnRenaming other)) := by
    intro pair hpair column hcolumn
    refine Row.lookup_renamed honeToOne ?_
    exact List.mem_flatMap.mpr ⟨pair, hpair, List.mem_map_of_mem hcolumn⟩
  rw [reduce_eq_regroup, reduce_eq_regroup]
  refine regroup_of_carried request other halike hcarried ?_ ?_ rows
  · intro node hnode
    exact ⟨hwell.nodup_childNames hnode, hfree node hnode⟩
  · intro node hnode
    exact ⟨hwell'.nodup_childNames hnode, hfree' node hnode⟩

/-- A gene with its traits, once under the names `Gene` and `t`, and once with the two names
    exchanged.  Every column goes to where another one was before. -/
theorem reduce_renamed_gene_with_traits :
    ∃ (request other : Request) (row : Row), request.Accepted ∧ other.Accepted
      ∧ request.pattern.name = "Gene" ∧ other.pattern.name = "t"
      ∧ row.renamed (request.columnRenaming other) = [("__Geneid", .bool false),
        ("Gene.p", .string "x"), ("__tid", .bool true), ("t.name", .string "abc")]
      ∧ request.reduce [row] = [[("name", .string "abc"),
        ("t", .array [.object [("p", .string "x"), ("relationships", .array [])]])]]
      ∧ other.reduce [row.renamed (request.columnRenaming other)] = [[("name", .string "abc"),
        ("Gene", .array [.object [("p", .string "x"), ("relationships", .array [])]])]] := by
  let text := "Gene() as t \x7b name, Trait(relationship: \":has\") as Gene "
    ++ "\x7b relationships, p \x7d \x7d"
  have htokens : Token.ofText text
      = [.ident "Gene", .punctuation .leftParen, .punctuation .rightParen, .ident "as", .ident "t",
        .punctuation .leftBrace, .ident "name", .punctuation .comma, .ident "Trait",
        .punctuation .leftParen, .ident "relationship", .punctuation .colon, .string ":has",
        .punctuation .rightParen, .ident "as", .ident "Gene", .punctuation .leftBrace,
        .ident "relationships", .punctuation .comma, .ident "p", .punctuation .rightBrace,
        .punctuation .rightBrace] := by
    decide +kernel
  let request : Request :=
    ⟨⟨"Gene", "Gene", [], none, false, false, false, ["name"], none⟩,
      [⟨⟨"Trait", "t", [], some ":has", false, true, false, ["p"], some "Gene"⟩, []⟩]⟩
  let other : Request :=
    ⟨⟨"Gene", "t", [], none, false, false, false, ["name"], none⟩,
      [⟨⟨"Trait", "Gene", [], some ":has", false, true, false, ["p"], some "t"⟩, []⟩]⟩
  have haccepted : request.Accepted := ⟨_, ofText_gene_with_traits⟩
  have haccepted' : other.Accepted := by
    refine ⟨text, ?_⟩
    rw [ofText, htokens]
    rfl
  have halike : request.AskAlike other := ⟨⟨rfl, rfl, rfl⟩, ⟨⟨rfl, rfl, rfl⟩, trivial⟩, trivial⟩
  have hfree : ∀ node ∈ request.nodes, node.pattern.ownNames.Disjoint node.childNames := by
    simp [request, nodes, Pattern.ownNames, childNames, Pattern.asksFor]
  have hfree' : ∀ node ∈ other.nodes, node.pattern.ownNames.Disjoint node.childNames := by
    simp [other, nodes, Pattern.ownNames, childNames, Pattern.asksFor]
  let row : Row := [("__tid", .bool false), ("t.p", .string "x"), ("count", .bool true),
    ("__Geneid", .bool true), ("Gene.name", .string "abc")]
  have hreduce := reduce_renamed haccepted haccepted' halike hfree hfree' [row]
  exact ⟨request, other, row, haccepted, haccepted', rfl, rfl, rfl, rfl, hreduce⟩

end Request

end GraphRequest
