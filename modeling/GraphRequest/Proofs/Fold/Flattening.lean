import GraphRequest.Proofs.Fold.Forest

/-!
# Folding undoes flattening

Reducing the rows of a forest gives back the forest (**`Request.reduce_flatten`**): every entity is
reported once, in order and in its place, however many rows it stands in.

The proof goes down the request.  The rows of one node fall into blocks, one for each entity
(`Pattern.groups_flatMap`), and the rows of a block say of the entity what is to be reported
(`Match.insertAll_membersOf`).  A block is a product of the entity's own rows and of those of its
branches, and every branch can be found again in it (`Request.gather_product_left`,
`Request.gather_product_right`).
-/

namespace GraphRequest

/-! ## The record of one entity -/

namespace Match

variable {found : Match} {pattern : Pattern}

/-- There is a value for each field that is named. -/
lemma exists_lookup_field (hfits : found.FitsOwn pattern) {field : String}
    (hmem : field ∈ pattern.fields) :
    ∃ value, (pattern.fields.zip found.fields).reverse.lookup field = some value := by
  rw [← Option.isSome_iff_exists, Option.isSome_iff_ne_none, ne_eq, Entries.lookup_eq_none_iff,
    not_not, Entries.keys, List.map_reverse, List.mem_reverse, List.map_fst_zip hfits.fields.ge]
  exact hmem

/-- What a directive asks for is reported if it is there. -/
lemma reported_eq {asked : Bool} {read value : Option Json} (hvalue : value.isSome = asked)
    (hread : asked = true → read = value) (word : String) (default : Json) :
    (if asked then [(word, read.getD default)] else []) = value.toList.map (word, ·) := by
  cases value with
  | none => simp [← hvalue]
  | some value =>
      obtain rfl : asked = true := hvalue.symm
      simp [hread rfl]

/-- The rows of an entity say of it what is reported. -/
lemma insertAll_membersOf {rows : List Row} (hname : IsName pattern.name)
    (hfits : found.FitsOwn pattern) {edge : Option Json}
    (hfirst : Row.AgreeOn pattern.columns (rows.headD []) (found.cells pattern edge))
    (hedges : pattern.isRoot = false →
      Json.distinct (rows.filterMap fun row => row.present? pattern.edgeColumn) = found.edges) :
    Entries.insertAll [] (pattern.membersOf rows)
      = Entries.insertAll [] (found.members pattern) := by
  have hfields : Entries.insertAll [] (pattern.fields.map fun field =>
        (field, ((rows.headD []).lookup (pattern.fieldColumn field)).getD .null))
      = Entries.insertAll [] (pattern.fields.zip found.fields) := by
    refine Entries.insertAll_zip hfits.fields fun field hmem => ?_
    obtain ⟨value, hvalue⟩ := exists_lookup_field hfits hmem
    have hcell : (rows.headD []).lookup (pattern.fieldColumn field)
        = (pattern.fields.zip found.fields).reverse.lookup field :=
      (hfirst _ (Pattern.field_mem_columns hmem)).trans (lookup_cells hname (.field field))
    rw [hcell, hvalue]
    rfl
  have hlabels := reported_eq hfits.labels (fun hset =>
    (hfirst _ (Pattern.labels_mem_columns hset)).trans (lookup_cells hname .labels))
    Directive.labels.word (.array [])
  have hgraph := reported_eq hfits.graph (fun hset =>
    (hfirst _ (Pattern.graph_mem_columns hset)).trans (lookup_cells hname .graph))
    Directive.graph.word .null
  have hreached : (if pattern.isRoot then []
      else Json.distinct (rows.filterMap fun row => row.present? pattern.edgeColumn))
        = found.edges := by
    split
    · rename_i hroot
      exact (hfits.edges.mpr hroot).symm
    · rename_i hroot
      exact hedges (by simpa using hroot)
  rw [Pattern.membersOf, members]
  simp only [Entries.insertAll_append, hfields, hlabels, hgraph, hreached]

end Match

/-! ## Reducing the rows of a forest -/

section

variable {found : Match} {pattern : Pattern} {nodes : List Request} {below : List Row}

/-- The rows of an entity are its cells in front of what is below. -/
lemma Match.exists_cells (hbelow : RowsOf nodes below)
    (hapart : ∀ node ∈ nodes, pattern.columns.Disjoint node.pattern.columns) {row : Row}
    (hrow : row ∈ Row.product (found.ownRows pattern) below) :
    ∃ edge, Row.AgreeOn pattern.columns row (found.cells pattern edge) := by
  obtain ⟨own, hown, other, hother, rfl⟩ := Row.mem_product.mp hrow
  obtain ⟨edge, rfl, -, -⟩ := Match.exists_of_mem_ownRows hown
  exact ⟨edge, hbelow.agreeOn_left hapart _ hother⟩

lemma Match.key?_eq (hname : IsName pattern.name) (hfits : found.FitsOwn pattern)
    (hbelow : RowsOf nodes below)
    (hapart : ∀ node ∈ nodes, pattern.columns.Disjoint node.pattern.columns) {row : Row}
    (hrow : row ∈ Row.product (found.ownRows pattern) below) :
    pattern.key? row = some found.id.compact := by
  obtain ⟨edge, hagree⟩ := Match.exists_cells hbelow hapart hrow
  have hid : (found.cells pattern edge).lookup pattern.idColumn = some found.id :=
    Match.lookup_cells hname .id
  rw [Pattern.key?_congr hagree, Pattern.key?, Pattern.identity?,
    Row.present?_of_lookup hid hfits.id]
  rfl

/-- All edges of an entity are found in its rows, and no other. -/
lemma Match.distinct_edges (hname : IsName pattern.name) (hfits : found.FitsOwn pattern)
    (hbelow : RowsOf nodes below) (hne : below ≠ [])
    (hapart : ∀ node ∈ nodes, pattern.columns.Disjoint node.pattern.columns)
    (hroot : pattern.isRoot = false) :
    Json.distinct ((Row.product (found.ownRows pattern) below).filterMap fun row =>
        row.present? pattern.edgeColumn) = found.edges := by
  have hread : ∀ edge ∈ found.edges, ∀ other ∈ below,
      Row.present? (found.cells pattern (some edge) ++ other) pattern.edgeColumn = some edge := by
    intro edge hedge other hother
    have hagree := hbelow.agreeOn_left hapart (found.cells pattern (some edge)) hother
    rw [hagree.present? (Pattern.edge_mem_columns hroot)]
    exact Row.present?_of_lookup (Match.lookup_cells hname .edge) (hfits.present edge hedge).1
  have hproduct : Row.product (found.ownRows pattern) below = found.edges.flatMap fun edge =>
      below.map fun other => found.cells pattern (some edge) ++ other := by
    simp [Row.product, Match.ownRows, hroot, List.flatMap_map]
  rw [hproduct, List.filterMap_flatMap]
  refine Json.distinct_flatMap (fun edge hedge => ⟨?_, fun value hvalue => ?_⟩)
    (fun edge hedge => Json.agrees_self edge (hfits.present edge hedge).2) hfits.unequal
  · obtain ⟨other, hother⟩ := List.exists_mem_of_ne_nil _ hne
    exact List.ne_nil_of_mem
      (List.mem_filterMap.mpr ⟨_, List.mem_map_of_mem hother, hread edge hedge other hother⟩)
  · obtain ⟨row, hrow, hvalue⟩ := List.mem_filterMap.mp hvalue
    obtain ⟨other, hother, rfl⟩ := List.mem_map.mp hrow
    rw [hread edge hedge other hother] at hvalue
    exact (Option.some.inj hvalue).symm

end

namespace Request

lemma regroup_congr {request : Request} {rows others : List Row}
    (h : request.gather rows = request.gather others) :
    request.regroup rows = request.regroup others := by
  rw [← records_gather, ← records_gather, h]

lemma regroupBelow_congr {children : List Request} {rows others : List Row}
    (h : ∀ child ∈ children, child.gather rows = child.gather others) :
    regroupBelow children rows = regroupBelow children others := by
  induction children with
  | nil => rfl
  | cons child children ih =>
      obtain ⟨hchild, hchildren⟩ := List.forall_mem_cons.mp h
      rw [regroupBelow, regroupBelow, regroup_congr hchild, ih hchildren]

/-- A branch in which nothing was found has no entities. -/
lemma gather_ofBranch (request : Request) (forest : List Match) :
    request.gather (Row.ofBranch forest (flatten request forest))
      = request.gather (flatten request forest) := by
  cases forest with
  | nil =>
      obtain ⟨pattern, children⟩ := request
      have hnone : pattern.key? [] = none := rfl
      have hgroups : pattern.groups ([] ++ [[]]) = pattern.groups [] :=
        pattern.groups_append_of_none hnone
      rw [List.nil_append] at hgroups
      simp only [Row.ofBranch, List.isEmpty_nil, if_true, gather, hgroups, flatten,
        List.flatMap_nil]
  | cons found forest => rfl

section

variable {nodes others : List Request} {rows below : List Row} {request : Request}

/-- The entities of a node are found in rows as they are behind rows about other nodes. -/
lemma gather_product_of_rowsOf (hrows : RowsOf nodes rows) (hne : rows ≠ [])
    (hbelow : RowsOf others below) (hapart : NodesApart nodes others)
    (hsub : request.nodes ⊆ others) :
    request.gather (Row.product rows below) = request.gather below :=
  gather_product_right
    (fun _ hrow other _ => hrows.agreeOn_right (hapart.symm.disjoint_columns hsub) hrow other)
    (fun other hother node hnode => hbelow.self other hother node (hsub hnode)) hne

/-- And as they are in front of such rows. -/
lemma gather_product_of_rowsOf_left (hrows : RowsOf nodes rows) (hbelow : RowsOf others below)
    (hne : below ≠ []) (hapart : NodesApart nodes others) (hsub : request.nodes ⊆ nodes) :
    request.gather (Row.product rows below) = request.gather rows :=
  gather_product_left
    (fun row _ _ hother => hbelow.agreeOn_left (hapart.disjoint_columns hsub) row hother)
    (fun row hrow node hnode => hrows.self row hrow node (hsub hnode)) hne

end

mutual

/-- The records of the rows of a forest are those of its entities. -/
theorem regroup_flatten : ∀ (request : Request) (forest : List Match),
    Named request.nodes → Apart request.nodes → FitAll request forest →
      regroup request (flatten request forest) = forest.map (report request)
  | ⟨pattern, children⟩, forest => by
      intro hnamed hapart ⟨hids, hfits⟩
      rw [nodes_mk] at hnamed hapart
      obtain ⟨-, hbelow, hown⟩ := apart_append.mp hapart
      obtain ⟨hname, hnames⟩ := List.forall_mem_append.mp hnamed
      have hname : IsName pattern.name := hname _ List.mem_cons_self
      have hdisjoint : ∀ node ∈ nodesOf children, pattern.columns.Disjoint node.pattern.columns :=
        hown _ List.mem_cons_self
      have hrows : ∀ found ∈ forest,
          RowsOf (nodesOf children) (flattenBelow children found.branches)
            ∧ flattenBelow children found.branches ≠ [] := fun found hfound =>
        rowsOf_flattenBelow children found.branches hnames hbelow (hfits found hfound).2
      have hgroups : pattern.groups (flatten ⟨pattern, children⟩ forest)
          = forest.map fun found => (found.id.compact,
            Row.product (found.ownRows pattern) (flattenBelow children found.branches)) := by
        refine Pattern.groups_flatMap (fun found hfound => ⟨?_, fun row hrow => ?_⟩) hids
        · exact product_ne_nil (Match.ownRows_ne_nil (hfits found hfound).1) (hrows found hfound).2
        · exact Match.key?_eq hname (hfits found hfound).1 (hrows found hfound).1 hdisjoint hrow
      rw [regroup, hgroups, List.map_map]
      refine List.map_congr_left fun found hfound => ?_
      obtain ⟨hfit, hbranches⟩ := hfits found hfound
      obtain ⟨hrows, hne⟩ := hrows found hfound
      have howns := Match.ownRows_ne_nil hfit
      have hmembers : Entries.insertAll [] (pattern.membersOf
            (Row.product (found.ownRows pattern) (flattenBelow children found.branches)))
          = Entries.insertAll [] (found.members pattern) := by
        obtain ⟨first, more, hcons⟩ := List.exists_cons_of_ne_nil (product_ne_nil howns hne)
        obtain ⟨edge, hagree⟩ :=
          Match.exists_cells hrows hdisjoint (hcons ▸ List.mem_cons_self : first ∈ _)
        refine Match.insertAll_membersOf hname hfit (by rw [hcons]; exact hagree) fun hroot => ?_
        exact Match.distinct_edges hname hfit hrows hne hdisjoint hroot
      have hbelow : regroupBelow children
            (Row.product (found.ownRows pattern) (flattenBelow children found.branches))
          = reportBelow children found.branches := by
        rw [regroupBelow_congr fun child hchild => gather_product_of_rowsOf
            (RowsOf.ownRows children hname hfit) howns hrows hown (nodes_subset_nodesOf hchild),
          regroupBelow_flattenBelow children found.branches hnames hbelow hbranches]
      rw [Function.comp_apply, report]
      simp only [Entries.insertAll_append, hmembers, hbelow]
termination_by structural request => request

/-- The arrays of the rows below an entity are those of its branches. -/
theorem regroupBelow_flattenBelow : ∀ (children : List Request) (branches : List (List Match)),
    Named (nodesOf children) → Apart (nodesOf children) → FitBelow children branches →
      regroupBelow children (flattenBelow children branches) = reportBelow children branches
  | [], _ => fun _ _ _ => by simp [regroupBelow, reportBelow]
  | _ :: _, [] => fun _ _ h => h.elim
  | child :: children, forest :: branches => by
      intro hnamed hapart hfits
      obtain ⟨hfit, hbranches⟩ := hfits
      rw [nodesOf_cons] at hnamed hapart
      obtain ⟨hchild, hchildren, hbetween⟩ := apart_append.mp hapart
      obtain ⟨hname, hnames⟩ := List.forall_mem_append.mp hnamed
      obtain ⟨hflat, hne⟩ := rowsOf_flatten child forest hname hchild hfit.2
      obtain ⟨hrows, hsome⟩ := rowsOf_flattenBelow children branches hnames hchildren hbranches
      have hbranch : RowsOf child.nodes (Row.ofBranch forest (flatten child forest)) :=
        RowsOf.ofBranch fun _ => hflat
      have hfirst : regroup child (flattenBelow (child :: children) (forest :: branches))
          = forest.map (report child) := by
        rw [flattenBelow, regroup_congr (gather_product_of_rowsOf_left hbranch hrows hsome hbetween
            (List.Subset.refl _)),
          regroup_congr (gather_ofBranch child forest),
          regroup_flatten child forest hname hchild hfit]
      have hrest : regroupBelow children (flattenBelow (child :: children) (forest :: branches))
          = reportBelow children branches := by
        rw [flattenBelow, regroupBelow_congr fun other hother => gather_product_of_rowsOf hbranch
            (Row.ofBranch_ne_nil hne) hrows hbetween (nodes_subset_nodesOf hother),
          regroupBelow_flattenBelow children branches hnames hchildren hbranches]
      rw [regroupBelow, reportBelow, hfirst, hrest, List.map_map]
      rfl
termination_by structural children => children

end

lemma WellFormed.records_fold_flatten {request : Request} (hwell : request.WellFormed)
    {forest : List Match} (hfits : request.FitAll forest) :
    request.records (request.fold (request.flatten forest)) = forest.map request.report := by
  rw [fold_eq_gather, records_gather]
  exact regroup_flatten request forest (fun node hnode => (hwell.lexical node hnode).name)
    hwell.apart hfits

/-- **Folding undoes flattening.**  Every entity of a forest is reported once, in order and below
    the entity it was found below, with all its edges, however many rows it stands in. -/
theorem reduce_flatten {request : Request} (haccepted : request.Accepted) {forest : List Match}
    (hfits : request.FitAll forest) :
    request.reduce (request.flatten forest) = forest.map request.report := by
  rw [reduce]
  exact haccepted.wellFormed.records_fold_flatten hfits

/-- A gene with two traits, one of them by two edges, is found in three rows. -/
theorem reduce_flatten_gene_with_traits :
    ∃ (request : Request) (forest : List Match), request.Accepted ∧ request.FitAll forest
      ∧ (request.flatten forest).length = 3
      ∧ request.reduce (request.flatten forest) = forest.map request.report := by
  let trait (id : Bool) (edges : List Json) : Match := ⟨.bool id, [.null], none, none, edges, []⟩
  let gene : Match := ⟨.string "g", [.string "abc"], none, none, [],
    [[trait true [.string "a", .string "b"], trait false [.string "a"]]]⟩
  have htrait : ∀ id edges, edges ≠ [] → (∀ edge ∈ edges, edge ≠ .null ∧ edge.NamesApart) →
      (edges.Pairwise fun edge other => edge.agrees other = false) →
      (trait id edges).FitsOwn
        ⟨"Trait", "t", [], some ":has", false, true, false, ["p"], some "Gene"⟩ := by
    intro id edges hne hpresent hunequal
    exact ⟨by simp [trait], rfl, rfl, rfl, by simp [trait, hne, Pattern.isRoot], hpresent, hunequal⟩
  have hfits : FitAll ⟨⟨"Gene", "Gene", [], none, false, false, false, ["name"], none⟩,
      [⟨⟨"Trait", "t", [], some ":has", false, true, false, ["p"], some "Gene"⟩, []⟩]⟩ [gene] := by
    refine ⟨List.nodup_singleton _, List.forall_mem_singleton.mpr
      ⟨⟨by simp [gene], rfl, rfl, rfl, by simp [gene, Pattern.isRoot], by simp [gene], .nil⟩,
        ⟨⟨?_, ?_⟩, trivial⟩⟩⟩
    · simp [trait, Json.compact]
    · have hunequal : (Json.string "a").agrees (.string "b") = false := rfl
      exact List.forall_mem_cons.mpr
        ⟨⟨htrait true _ (by simp) (by simp [Json.NamesApart]) (by simp [hunequal]), trivial⟩,
          List.forall_mem_singleton.mpr
            ⟨htrait false _ (by simp) (by simp [Json.NamesApart]) (by simp), trivial⟩⟩
  have haccepted : Accepted ⟨⟨"Gene", "Gene", [], none, false, false, false, ["name"], none⟩,
      [⟨⟨"Trait", "t", [], some ":has", false, true, false, ["p"], some "Gene"⟩, []⟩]⟩ :=
    ⟨_, ofText_gene_with_traits⟩
  exact ⟨_, [gene], haccepted, hfits, rfl, reduce_flatten haccepted hfits⟩

end Request

end GraphRequest
