import GraphRequest.Proofs.Fold.Shape

/-!
# Branches do not interfere

A row is one path through every branch of a request at once, and scopes are kept by the position of
the child they belong to.  All the same no branch has to do with another: if a node is taken out of
a request with all that is below it, the records are what they were, without the array of this node.

* `Entries.alter` — changes the value under a name or removes it.
* `Request.prune` — a request without one of its nodes and all below it.  In an accepted request
  the name tells the node, and nothing else is taken out (`Request.exists_split_prune`).
* `Request.strip` — a record without the arrays of this node, wherever they stand.
* **`Request.reduce_prune`** — the pruned request reports the stripped records.
-/

namespace GraphRequest

/-! ## Changing one entry -/

namespace Entries

variable {α : Type} {name other : String} {change : α → Option α} {value : α}

/-- Changes the value under a name, or removes it.  All other entries stay as they are. -/
def alter (name : String) (change : α → Option α) : Entries α → Entries α
  | [] => []
  | (other, value) :: rest =>
    if other = name then (change value).toList.map (other, ·) ++ rest
    else (other, value) :: alter name change rest

/-- Another name can be inserted before or after the change. -/
lemma alter_insert_of_ne (h : other ≠ name) (entries : Entries α) :
    alter name change (insert other value entries)
      = insert other value (alter name change entries) := by
  induction entries with
  | nil => simp [insert, upsert, alter, h]
  | cons entry rest ih =>
      obtain ⟨first, found⟩ := entry
      simp only [insert] at ih ⊢
      by_cases hname : first = name
      · subst hname
        cases hchange : change found with
        | none => simp [upsert, alter, Ne.symm h, hchange]
        | some changed => simp [upsert, alter, Ne.symm h, hchange]
      · by_cases hother : first = other
        · simp [upsert, alter, hother, h]
        · simp [upsert, alter, hname, hother, ih]

/-- A name that was just inserted is changed as if the changed value were inserted. -/
lemma alter_insert_self_of_some {changed : α} (h : change value = some changed)
    (entries : Entries α) :
    alter name change (insert name value entries) = insert name changed entries := by
  induction entries with
  | nil => simp [insert, upsert, alter, h]
  | cons entry rest ih =>
      obtain ⟨first, found⟩ := entry
      simp only [insert] at ih
      by_cases hfirst : first = name
      · simp [insert, upsert, alter, hfirst, h]
      · simp [insert, upsert, alter, hfirst, ih]

/-- A name that was just inserted leaves nothing behind when it is removed, if it is new. -/
lemma alter_insert_self_of_none (h : change value = none) {entries : Entries α}
    (hnew : name ∉ keys entries) : alter name change (insert name value entries) = entries := by
  induction entries with
  | nil => simp [insert, upsert, alter, h]
  | cons entry rest ih =>
      obtain ⟨first, found⟩ := entry
      simp only [keys_cons, List.mem_cons, not_or] at hnew
      simp only [insert] at ih
      simp [insert, upsert, alter, Ne.symm hnew.1, ih hnew.2]

lemma alter_insertAll {new : Entries α} (h : name ∉ keys new) (entries : Entries α) :
    alter name change (insertAll entries new) = insertAll (alter name change entries) new := by
  induction new generalizing entries with
  | nil => rfl
  | cons entry new ih =>
      obtain ⟨first, found⟩ := entry
      simp only [keys_cons, List.mem_cons, not_or] at h
      rw [insertAll_cons, insertAll_cons, ih h.2, alter_insert_of_ne (Ne.symm h.1)]

end Entries

namespace Request

/-! ## Taking a node out of a request -/

mutual

/-- A request without the nodes of a name below its root, and without what is below these. -/
def prune (name : String) : Request → Request
  | ⟨pattern, children⟩ => ⟨pattern, pruneBelow name children⟩
termination_by structural request => request

/-- Several requests without the nodes of a name, and without what is below these. -/
def pruneBelow (name : String) : List Request → List Request
  | [] => []
  | child :: children =>
    if child.pattern.name = name then pruneBelow name children
    else prune name child :: pruneBelow name children
termination_by structural children => children

end

mutual

/-- A record without the arrays of the nodes of a name. -/
def strip (name : String) : Request → Record → Record
  | ⟨_, children⟩, record => stripBelow name children record
termination_by structural request => request

/-- Takes the array of each child out of a record if the child has the name, and otherwise the
    arrays of the nodes of the name out of the records of the child. -/
def stripBelow (name : String) : List Request → Record → Record
  | [], record => record
  | child :: children, record =>
    stripBelow name children <|
      if child.pattern.name = name then record.alter name fun _ => none
      else record.alter child.pattern.name fun value => some (value.mapRecords (strip name child))
termination_by structural children => children

end

@[simp] lemma pattern_prune (name : String) (request : Request) :
    (request.prune name).pattern = request.pattern := by
  cases request
  rfl

mutual

/-- Where no node has the name, nothing is taken out. -/
theorem prune_eq_self {name : String} : ∀ (request : Request),
    (name ∉ (nodesOf request.children).map fun node => node.pattern.name) →
      request.prune name = request
  | ⟨pattern, children⟩ => by
      intro h
      rw [prune, pruneBelow_eq_self children h]
termination_by structural request => request

lemma pruneBelow_eq_self {name : String} : ∀ (children : List Request),
    (name ∉ (nodesOf children).map fun node => node.pattern.name) →
      pruneBelow name children = children
  | [] => fun _ => rfl
  | child :: children => by
      intro h
      rw [nodesOf_cons, List.map_append, List.mem_append, not_or, nodes_eq child, List.map_cons,
        List.mem_cons, not_or] at h
      obtain ⟨⟨hchild, hbelow⟩, hchildren⟩ := h
      rw [pruneBelow, if_neg (Ne.symm hchild), prune_eq_self child hbelow,
        pruneBelow_eq_self children hchildren]
termination_by structural children => children

end

/-! ## Taking arrays out of a record -/

/-- The array of a node is taken out of a record as it would be made without the node.  The children
    are gone through in the order in which their arrays were inserted, on top of the entries that
    were there before. -/
lemma stripBelow_insertAll {name : String} {children : List Request}
    (hnames : (children.map fun child => child.pattern.name).Nodup)
    (hbelow : ∀ child ∈ children, ∀ rows,
      (child.prune name).regroup rows = (child.regroup rows).map (child.strip name))
    (group : List Row) {entries : Record}
    (hfree : (name ∈ children.map fun child => child.pattern.name) → name ∉ Entries.keys entries) :
    stripBelow name children (Entries.insertAll entries (regroupBelow children group))
      = Entries.insertAll entries (regroupBelow (pruneBelow name children) group) := by
  induction children generalizing entries with
  | nil => rfl
  | cons child children ih =>
      obtain ⟨hnew, hrest⟩ := List.nodup_cons.mp hnames
      obtain ⟨hchild, hchildren⟩ := List.forall_mem_cons.mp hbelow
      have hkeys : child.pattern.name ∉ Entries.keys (regroupBelow children group) := by
        rwa [keys_regroupBelow]
      rw [regroupBelow, Entries.insertAll_cons, stripBelow, pruneBelow]
      by_cases hname : child.pattern.name = name
      · -- the node itself: its array goes, and no other child has its name
        subst hname
        have hentries := hfree List.mem_cons_self
        rw [if_pos rfl, if_pos rfl, Entries.alter_insertAll hkeys,
          Entries.alter_insert_self_of_none rfl hentries]
        exact ih hrest hchildren fun hmem => absurd hmem hnew
      · -- another child: its records are stripped, which is what pruning makes of them
        let found : Json := .array ((child.regroup group).map .object)
        let kept : Json := .array (((child.prune name).regroup group).map .object)
        have hstripped : found.mapRecords (child.strip name) = kept := by
          rw [Json.mapRecords_array, ← hchild]
        have halter : Entries.alter child.pattern.name
            (fun value => some (value.mapRecords (child.strip name)))
            (Entries.insert child.pattern.name found entries)
              = Entries.insert child.pattern.name kept entries := by
          apply Entries.alter_insert_self_of_some
          exact congrArg some hstripped
        rw [if_neg hname, if_neg hname, Entries.alter_insertAll hkeys, halter, regroupBelow,
          Entries.insertAll_cons, pattern_prune]
        refine ih hrest hchildren fun hmem hentry => ?_
        rw [Entries.insert, Entries.keys_upsert] at hentry
        have hold := hfree (List.mem_cons_of_mem _ hmem)
        split at hentry
        · exact hold hentry
        · rcases List.mem_append.mp hentry with hentry | hentry
          · exact hold hentry
          · exact hname (List.mem_singleton.mp hentry).symm

/-- **Pruning a request strips its records**, for the rows of any entity, as long as wherever the
    name is that of a child nothing of the node above is reported under it. -/
theorem regroup_prune {name : String} (request : Request)
    (hnames : ∀ node ∈ request.nodes, node.childNames.Nodup)
    (hfree : ∀ node ∈ request.nodes, name ∈ node.childNames → name ∉ node.pattern.ownNames)
    (rows : List Row) :
    (request.prune name).regroup rows = (request.regroup rows).map (request.strip name) := by
  induction request using Request.induction generalizing rows with
  | node pattern children ih =>
      let request : Request := ⟨pattern, children⟩
      have hself := mem_nodes_self request
      have hbelow : ∀ child ∈ children, ∀ rows,
          (child.prune name).regroup rows = (child.regroup rows).map (child.strip name) := by
        intro child hchild rows
        have hnodes : child.nodes ⊆ request.nodes :=
          (nodes_sublist (mem_nodes_of_mem_children hself hchild)).subset
        exact ih child hchild (fun node hnode => hnames node (hnodes hnode))
          (fun node hnode => hfree node (hnodes hnode)) rows
      have hrecord : ∀ group, (request.prune name).recordOf group
          = request.strip name (request.recordOf group) := by
        intro group
        have hkeys : name ∈ request.childNames →
            name ∉ Entries.keys (Entries.insertAll [] (pattern.membersOf group)) := by
          intro hmem hkey
          exact hfree request hself hmem (pattern.mem_keys_insertAll_membersOf.mp hkey)
        have hstrip := stripBelow_insertAll (hnames request hself) hbelow group hkeys
        rw [← Entries.insertAll_append, ← Entries.insertAll_append] at hstrip
        exact hstrip.symm
      rw [regroup_eq_map_recordOf, regroup_eq_map_recordOf, pattern_prune, List.map_map]
      exact List.map_congr_left fun entry _ => hrecord entry.2

/-! ## What is taken out -/

mutual

/-- Pruning takes out one block of nodes: a node and all below it. -/
theorem exists_split_prune {child : Request} : ∀ (request : Request),
    (request.nodes.map fun node => node.pattern.name).Nodup → child ∈ nodesOf request.children →
      ∃ before after, request.nodes.map pattern = before ++ child.nodes.map pattern ++ after
        ∧ (request.prune child.pattern.name).nodes.map pattern = before ++ after
  | ⟨pattern, children⟩ => by
      intro hnames hchild
      obtain ⟨before, after, hnodes, hpruned⟩ :=
        exists_split_pruneBelow children (List.nodup_cons.mp hnames).2 hchild
      refine ⟨pattern :: before, after, ?_, ?_⟩
      · rw [nodes_eq, List.map_cons, hnodes]
        rfl
      · rw [prune, nodes_eq, List.map_cons, hpruned]
        rfl
termination_by structural request => request

lemma exists_split_pruneBelow {child : Request} : ∀ (children : List Request),
    ((nodesOf children).map fun node => node.pattern.name).Nodup → child ∈ nodesOf children →
      ∃ before after,
        (nodesOf children).map pattern = before ++ child.nodes.map pattern ++ after
          ∧ (nodesOf (pruneBelow child.pattern.name children)).map pattern = before ++ after
  | [] => fun _ hchild => absurd hchild List.not_mem_nil
  | first :: children => by
      intro hnames hchild
      rw [nodesOf_cons, List.map_append] at hnames
      have hdisjoint := List.disjoint_of_nodup_append hnames
      rw [nodesOf_cons, List.mem_append] at hchild
      rcases hchild with hchild | hchild
      · have hrest := pruneBelow_eq_self children (hdisjoint (List.mem_map_of_mem hchild))
        rcases mem_nodes.mp hchild with rfl | hbelow
        · -- the first tree itself
          refine ⟨[], (nodesOf children).map pattern, ?_, ?_⟩
          · simp
          · simp [pruneBelow, hrest]
        · -- a node below the root of the first tree
          have hfirst := hnames.of_append_left
          rw [nodes_eq, List.map_cons, List.nodup_cons] at hfirst
          have hne : first.pattern.name ≠ child.pattern.name := by
            intro heq
            exact hfirst.1 (heq ▸ List.mem_map_of_mem hbelow)
          obtain ⟨before, after, hnodes, hpruned⟩ :=
            exists_split_prune first hnames.of_append_left hbelow
          refine ⟨before, after ++ (nodesOf children).map pattern, ?_, ?_⟩
          · simp [hnodes]
          · simp [pruneBelow, hne, hrest, hpruned]
      · -- a node of the other trees
        have hname := List.mem_map_of_mem (f := fun node => node.pattern.name) hchild
        have hkept : child.pattern.name ∉ first.nodes.map fun node => node.pattern.name :=
          fun hmem => hdisjoint hmem hname
        rw [nodes_eq, List.map_cons, List.mem_cons, not_or] at hkept
        obtain ⟨before, after, hnodes, hpruned⟩ :=
          exists_split_pruneBelow children hnames.of_append_right hchild
        refine ⟨first.nodes.map pattern ++ before, after, ?_, ?_⟩
        · simp [hnodes]
        · simp [pruneBelow, Ne.symm hkept.1, prune_eq_self first hkept.2, hpruned]
termination_by structural children => children

end

/-- In a well-formed tree only the node above a child has a child of this name. -/
lemma WellFormed.eq_of_mem_childNames {request node other child : Request}
    (hwell : request.WellFormed) (hnode : node ∈ request.nodes) (hother : other ∈ request.nodes)
    (hchild : child ∈ node.children) (hname : child.pattern.name ∈ other.childNames) :
    other = node := by
  obtain ⟨twin, htwin, hnames⟩ := List.mem_map.mp hname
  have hunique := List.inj_on_of_nodup_map hwell.names
  obtain rfl := hunique (mem_nodes_of_mem_children hother htwin)
    (mem_nodes_of_mem_children hnode hchild) hnames
  have hparents := (hwell.linked other hother twin htwin).parent.symm.trans
    (hwell.linked node hnode twin hchild).parent
  exact hunique hother hnode (Option.some.inj hparents)

/-- **Branches do not interfere.**  Take a child out of a request, with all that is below it: of the
    nodes nothing else is missing, and for all rows the records are those of the request, where only
    the arrays of the child are missing.  Nothing of the node above may be reported under the name
    of the child, for then this would come to light. -/
theorem reduce_prune {request node child : Request} (haccepted : request.Accepted)
    (hnode : node ∈ request.nodes) (hchild : child ∈ node.children)
    (hfree : child.pattern.name ∉ node.pattern.ownNames) :
    (∃ before after, request.nodes.map pattern = before ++ child.nodes.map pattern ++ after
        ∧ (request.prune child.pattern.name).nodes.map pattern = before ++ after)
      ∧ ∀ rows, (request.prune child.pattern.name).reduce rows
        = (request.reduce rows).map (request.strip child.pattern.name) := by
  have hwell := haccepted.wellFormed
  have hbelow : child ∈ nodesOf request.children := by
    rcases mem_nodes.mp (mem_nodes_of_mem_children hnode hchild) with rfl | hbelow
    · -- the root hangs on nothing
      have hparent := (hwell.linked node hnode child hchild).parent
      rw [hwell.root_parent] at hparent
      cases hparent
    · exact hbelow
  refine ⟨exists_split_prune request hwell.names hbelow, ?_⟩
  intro rows
  rw [reduce_eq_regroup, reduce_eq_regroup]
  refine regroup_prune request (fun _ hmem => hwell.nodup_childNames hmem) ?_ rows
  intro other hother hname
  rwa [hwell.eq_of_mem_childNames hnode hother hchild hname]

/-- Two rows of a gene have different traits and the same site.  Without the traits they tell the
    same, and the sites, now the first children, are reported as before. -/
theorem reduce_prune_gene_with_traits_and_sites :
    ∃ (request child : Request) (rows : List Row), request.Accepted ∧ child ∈ request.children
      ∧ child.pattern.name ∉ request.pattern.ownNames
      ∧ request.reduce rows = [[("name", .string "abc"),
          ("t", .array [.object [("p", .string "x"), ("relationships", .array [.string "a"])],
            .object [("p", .string "y"), ("relationships", .array [])]]),
          ("s", .array [.object [("q", .string "z")]])]]
      ∧ (request.prune child.pattern.name).nodes.map pattern
        = [request.pattern, ⟨"Site", "s", [], some ":at", false, false, false, ["q"], some "Gene"⟩]
      ∧ (request.prune child.pattern.name).reduce rows
        = [[("name", .string "abc"), ("s", .array [.object [("q", .string "z")]])]] := by
  let trait : Request :=
    ⟨⟨"Trait", "t", [], some ":has", false, true, false, ["p"], some "Gene"⟩, []⟩
  let site : Request := ⟨⟨"Site", "s", [], some ":at", false, false, false, ["q"], some "Gene"⟩, []⟩
  let request : Request :=
    ⟨⟨"Gene", "Gene", [], none, false, false, false, ["name"], none⟩, [trait, site]⟩
  have haccepted : request.Accepted := ⟨_, ofText_gene_with_traits_and_sites⟩
  let rows : List Row :=
    [[("__Geneid", .bool true), ("Gene.name", .string "abc"), ("__tid", .bool true),
        ("__tr", .string "a"), ("t.p", .string "x"), ("__sid", .bool true), ("s.q", .string "z")],
      [("__Geneid", .bool true), ("Gene.name", .string "abc"), ("__tid", .bool false),
        ("t.p", .string "y"), ("__sid", .bool true), ("s.q", .string "z")]]
  have hfree : trait.pattern.name ∉ request.pattern.ownNames := by
    decide
  obtain ⟨-, hreduce⟩ := reduce_prune haccepted (mem_nodes_self request) (.head _) hfree
  exact ⟨request, trait, rows, haccepted, .head _, hfree, rfl, rfl, hreduce rows⟩

end Request

end GraphRequest
