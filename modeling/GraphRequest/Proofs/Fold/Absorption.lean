import GraphRequest.Proofs.Fold.Liveness
import GraphRequest.Proofs.Json.Agreement

/-!
# Rows that were seen already

A query result repeats itself: what one row says of an entity and its edges, other rows have often
said before.  Such a row leaves no trace, wherever it comes and whatever it has in the columns that
count for new entities only.  The rows that have said it before need not be one row: each level of
the request may have been met in another one.

* `Request.SamePath` — that another row has the ids of a row on the way from the root to a node.
* `Request.Seen` — that some rows have said all that a row says: each live node was reached with the
  same ids before, and by an edge that agrees with that of the row.
* `Request.Seen.witnessed` — then the row says nothing new, at any level.
* **`Request.reduce_of_seen`** — hence it makes no difference to the answer, whatever rows follow.
  In particular rows can be repeated, with other fields, labels and graph values if one likes.
-/

namespace GraphRequest

namespace Request

/-- That another row has the ids that a row has on the way from the root to a node. -/
inductive SamePath (row other : Row) : Request → Request → Prop
  | root {request : Request} {key : String} (hrow : request.pattern.key? row = some key)
      (hother : request.pattern.key? other = some key) : SamePath row other request request
  | inside {request child node : Request} {key : String}
      (hrow : request.pattern.key? row = some key) (hother : request.pattern.key? other = some key)
      (hchild : child ∈ request.children) (hbelow : SamePath row other child node) :
      SamePath row other request node

/-- That rows have said all that another row says.  For each node that is live in the row, one of
    them has the same ids down to the node, and if the row has an edge to collect there, one of them
    has the same ids and an edge that agrees. -/
structure Seen (request : Request) (rows : List Row) (row : Row) : Prop where
  ids : ∀ node, Live row request node → ∃ other ∈ rows, SamePath row other request node
  edges : ∀ node, Live row request node → ∀ edge, node.pattern.collectedEdge? row = some edge →
    ∃ other ∈ rows, SamePath row other request node
      ∧ ∃ known, node.pattern.collectedEdge? other = some known ∧ known.agrees edge = true

variable {row other : Row} {rows : List Row} {request node child : Request} {key : String}

lemma isSome_identity?_of_key? (h : request.pattern.key? row = some key) :
    (request.pattern.identity? row).isSome = true := by
  rw [Pattern.key?, Option.map_eq_some_iff] at h
  obtain ⟨id, hid, -⟩ := h
  rw [hid]
  rfl

lemma exists_key?_of_isSome (h : (request.pattern.identity? row).isSome = true) :
    ∃ key, request.pattern.key? row = some key := by
  obtain ⟨id, hid⟩ := Option.isSome_iff_exists.mp h
  exact ⟨id.compact, by simp [Pattern.key?, hid]⟩

namespace SamePath

/-- The ids on the way begin with that of the root. -/
lemma key?_root (h : SamePath row other request node) (hkey : request.pattern.key? row = some key) :
    request.pattern.key? other = some key := by
  cases h with
  | root hrow hother => rw [hother, ← hrow, hkey]
  | inside hrow hother _ _ => rw [hother, ← hrow, hkey]

/-- The other row is in the group of the row. -/
lemma mem_rowsWith (h : SamePath row other request node)
    (hkey : request.pattern.key? row = some key) (hmem : other ∈ rows) :
    other ∈ request.pattern.rowsWith key rows :=
  List.mem_filter.mpr ⟨hmem, beq_iff_eq.mpr (h.key?_root hkey)⟩

lemma live (h : SamePath row other request node) : Live row request node := by
  induction h with
  | root hrow _ => exact .root (isSome_identity?_of_key? hrow)
  | inside hrow _ hchild _ ih => exact .inside (isSome_identity?_of_key? hrow) hchild ih

/-- The way to a node of a subtree goes through the root of the subtree. -/
lemma of_mem_child (hnodup : request.nodes.Nodup) (hchild : child ∈ request.children)
    (hnode : node ∈ child.nodes) (h : SamePath row other request node) :
    SamePath row other child node := by
  rw [nodes_eq, List.nodup_cons] at hnodup
  obtain ⟨hroot, hbelow⟩ := hnodup
  cases h with
  | root => exact absurd (nodes_subset_nodesOf hchild hnode) hroot
  | inside _ _ hchild' hpath =>
      rwa [eq_of_mem_nodes hbelow hchild hchild' hnode hpath.live.mem_nodes]

end SamePath

/-! ## Seen rows say nothing new -/

lemma witnessedBelow_of_forall {children : List Request}
    (h : ∀ child ∈ children, child.Witnessed rows row) : WitnessedBelow children rows row := by
  induction children with
  | nil => trivial
  | cons child children ih =>
      obtain ⟨hchild, hchildren⟩ := List.forall_mem_cons.mp h
      exact ⟨hchild, ih hchildren⟩

/-- Rows that have said all that a row says have said it, of the children of an entity, in the rows
    of that entity. -/
lemma Seen.inChild (h : request.Seen rows row) (hnodup : request.nodes.Nodup)
    (hkey : request.pattern.key? row = some key) (hchild : child ∈ request.children) :
    child.Seen (request.pattern.rowsWith key rows) row where
  ids node hlive := by
    obtain ⟨other, hother, hpath⟩ :=
      h.ids node (.inside (isSome_identity?_of_key? hkey) hchild hlive)
    exact ⟨other, hpath.mem_rowsWith hkey hother, hpath.of_mem_child hnodup hchild hlive.mem_nodes⟩
  edges node hlive edge hedge := by
    obtain ⟨other, hother, hpath, hknown⟩ :=
      h.edges node (.inside (isSome_identity?_of_key? hkey) hchild hlive) edge hedge
    have hbelow := hpath.of_mem_child hnodup hchild hlive.mem_nodes
    exact ⟨other, hpath.mem_rowsWith hkey hother, hbelow, hknown⟩

/-- **A row that was seen says nothing new.**  If it has an id of the root, a row with this id was
    there and so was the edge; in the rows with this id it was seen from each child on. -/
theorem Seen.witnessed (h : request.Seen rows row) (hnodup : request.nodes.Nodup) :
    request.Witnessed rows row := by
  induction request using Request.induction generalizing rows with
  | node pattern children ih =>
      intro key hkey
      let request : Request := ⟨pattern, children⟩
      have hkey : request.pattern.key? row = some key := hkey
      have hroot : Live row request request := .root (isSome_identity?_of_key? hkey)
      refine ⟨?_, ?_, witnessedBelow_of_forall ?_⟩
      · obtain ⟨other, hother, hpath⟩ := h.ids request hroot
        exact pattern.mem_keysIn.mpr ⟨other, hother, hpath.key?_root hkey⟩
      · intro edge hedge
        obtain ⟨other, hother, hpath, known, hknown, hagrees⟩ := h.edges request hroot edge hedge
        have hgroup := hpath.mem_rowsWith hkey hother
        exact Json.any_distinct hagrees (List.mem_filterMap.mpr ⟨other, hgroup, hknown⟩)
      · intro child hchild
        refine ih child hchild (h.inChild hnodup hkey hchild) (hnodup.sublist ?_)
        exact nodes_sublist (mem_nodes_of_mem_children (mem_nodes_self request) hchild)

/-! ## Rows that are repeated -/

/-- That two rows have the same ids of all nodes and the same edges where edges are collected.  All
    else may differ. -/
def SameLinks (request : Request) (row other : Row) : Prop :=
  ∀ node ∈ request.nodes, node.pattern.key? row = node.pattern.key? other
    ∧ node.pattern.collectedEdge? row = node.pattern.collectedEdge? other

lemma SameLinks.refl (request : Request) (row : Row) : request.SameLinks row row :=
  fun _ _ => ⟨rfl, rfl⟩

lemma SameLinks.samePath (h : request.SameLinks row other) (hlive : Live row request node) :
    SamePath row other request node := by
  induction hlive with
  | root hid =>
      obtain ⟨key, hkey⟩ := exists_key?_of_isSome hid
      exact .root hkey ((h _ (mem_nodes_self _)).1 ▸ hkey)
  | @inside request child node hid hchild hlive ih =>
      obtain ⟨key, hkey⟩ := exists_key?_of_isSome hid
      refine .inside hkey ((h _ (mem_nodes_self _)).1 ▸ hkey) hchild (ih ?_)
      exact fun node hnode => h node (mem_nodes.mpr (Or.inr (nodes_subset_nodesOf hchild hnode)))

/-- In a row that is read an edge has no name twice. -/
lemma namesApart_of_collectedEdge? {pattern : Pattern} {edge : Json}
    (hread : (Json.object row).NamesApart) (h : pattern.collectedEdge? row = some edge) :
    edge.NamesApart := by
  rw [Pattern.collectedEdge?] at h
  split at h
  · have hmem := Entries.mem_of_lookup (Row.present?_eq_some_iff.mp h).1
    exact Json.membersApart_iff.mp hread.2 _ hmem
  · simp at h

/-- A row was seen if one with the same ids and edges was there. -/
lemma SameLinks.seen (h : request.SameLinks row other) (hmem : other ∈ rows)
    (hread : (Json.object row).NamesApart ∨ (Json.object other).NamesApart) :
    request.Seen rows row where
  ids node hlive := ⟨other, hmem, h.samePath hlive⟩
  edges node hlive edge hedge := by
    have hother : node.pattern.collectedEdge? other = some edge := by
      rw [← (h node hlive.mem_nodes).2, hedge]
    refine ⟨other, hmem, h.samePath hlive, edge, hother, Json.agrees_self edge ?_⟩
    rcases hread with hrow | hother'
    · exact namesApart_of_collectedEdge? hrow hedge
    · exact namesApart_of_collectedEdge? hother' hother

/-! ## The answer -/

/-- A row that was seen leaves the entities as they are. -/
lemma Seen.fold_append (h : request.Seen rows row) (hnodup : request.nodes.Nodup) :
    request.fold (rows ++ [row]) = request.fold rows := by
  rw [fold_eq_gather, fold_eq_gather]
  exact gather_append_singleton_of_witnessed request rows (h.witnessed hnodup)

/-- Where rows end in the same entities, so do they with the same rows after them. -/
lemma reduce_append_congr {others : List Row} (h : request.fold rows = request.fold others)
    (more : List Row) : request.reduce (rows ++ more) = request.reduce (others ++ more) := by
  have hfold : ∀ first : List Row, request.fold (first ++ more)
      = more.foldl (fun scope row => request.absorb row scope) (request.fold first) := by
    intro first
    exact List.foldl_append ..
  rw [reduce, reduce, hfold, hfold, h]

/-- A row that was seen can be left out behind the rows that say all it says. -/
lemma Seen.reduce_append (h : request.Seen rows row) (hnodup : request.nodes.Nodup)
    (more : List Row) : request.reduce (rows ++ [row] ++ more) = request.reduce (rows ++ more) :=
  reduce_append_congr (h.fold_append hnodup) more

/-- Rows as they are read change nothing when they come all over again. -/
lemma reduce_append_self (hnodup : request.nodes.Nodup)
    (hread : ∀ row ∈ rows, (Json.object row).NamesApart) :
    request.reduce (rows ++ rows) = request.reduce rows := by
  have hwitnessed : ∀ row ∈ rows, request.Witnessed rows row := by
    intro row hrow
    have hseen := (SameLinks.refl request row).seen hrow (Or.inl (hread row hrow))
    exact hseen.witnessed hnodup
  rw [reduce, reduce, fold_eq_gather, fold_eq_gather, gather_append_of_witnessed hwitnessed]

/-- **Rows that were seen make no difference.**

* A row all of which other rows have said can be left out behind them, whatever rows follow.
* This is so of a row that has the ids and edges of one of them, whatever else it holds.
* Hence rows that come all over again change nothing. -/
theorem reduce_of_seen (haccepted : request.Accepted) :
    (∀ rows row more, request.Seen rows row →
        request.reduce (rows ++ [row] ++ more) = request.reduce (rows ++ more))
      ∧ (∀ rows row other more, other ∈ rows → request.SameLinks row other →
          (Json.object row).NamesApart →
            request.reduce (rows ++ [row] ++ more) = request.reduce (rows ++ more))
      ∧ ∀ rows : List Row, (∀ row ∈ rows, (Json.object row).NamesApart) →
          request.reduce (rows ++ rows) = request.reduce rows := by
  have hnodup := haccepted.wellFormed.nodup_nodes
  refine ⟨?_, ?_, ?_⟩
  · intro rows row more h
    exact h.reduce_append hnodup more
  · intro rows row other more hmem hsame hread
    exact (hsame.seen hmem (Or.inl hread)).reduce_append hnodup more
  · intro rows hread
    exact reduce_append_self hnodup hread

/-- One row of a gene has its trait and another one its site.  A row that has both, and other values
    in the fields, was seen, though no single row has said all that it says. -/
theorem reduce_of_seen_gene_with_trait_and_site :
    ∃ (request : Request) (first second row : Row), request.Accepted
      ∧ request.Seen [first, second] row
      ∧ ¬ request.SameLinks row first ∧ ¬ request.SameLinks row second
      ∧ row.lookup "t.p" ≠ first.lookup "t.p"
      ∧ request.reduce [first, second, row, first] = request.reduce [first, second, first]
      ∧ request.reduce [first, second, first, second] = request.reduce [first, second] := by
  let trait : Request :=
    ⟨⟨"Trait", "t", [], some ":has", false, true, false, ["p"], some "Gene"⟩, []⟩
  let site : Request := ⟨⟨"Site", "s", [], some ":at", false, false, false, ["q"], some "Gene"⟩, []⟩
  let request : Request :=
    ⟨⟨"Gene", "Gene", [], none, false, false, false, ["name"], none⟩, [trait, site]⟩
  have haccepted : request.Accepted := ⟨_, ofText_gene_with_traits_and_sites⟩
  let first : Row := [("__Geneid", .bool true), ("__tid", .bool true), ("__tr", .string "a"),
    ("t.p", .string "x")]
  let second : Row := [("__Geneid", .bool true), ("__sid", .bool false), ("s.q", .string "y")]
  let row : Row := [("__Geneid", .bool true), ("Gene.name", .string "abc"), ("__tid", .bool true),
    ("__tr", .string "a"), ("__sid", .bool false)]
  have hnodes : ∀ node, Live row request node → node = request ∨ node = trait ∨ node = site := by
    intro node hlive
    have hmem : node ∈ [request, trait, site] := hlive.mem_nodes
    simpa using hmem
  have hseen : request.Seen [first, second] row := by
    refine ⟨?_, ?_⟩
    · intro node hlive
      rcases hnodes node hlive with rfl | rfl | rfl
      · exact ⟨first, .head _, .root rfl rfl⟩
      · exact ⟨first, .head _, .inside rfl rfl (.head _) (.root rfl rfl)⟩
      · exact ⟨second, .tail _ (.head _), .inside rfl rfl (.tail _ (.head _)) (.root rfl rfl)⟩
    · intro node hlive edge hedge
      rcases hnodes node hlive with rfl | rfl | rfl
      · cases hedge
      · cases hedge
        exact ⟨first, .head _, .inside rfl rfl (.head _) (.root rfl rfl), _, rfl, rfl⟩
      · cases hedge
  have hread : ∀ row ∈ [first, second], (Json.object row).NamesApart := by
    simp [first, second, Json.NamesApart, Json.MembersApart]
  obtain ⟨hrow, -, hrows⟩ := reduce_of_seen haccepted
  refine ⟨request, first, second, row, haccepted, hseen, ?_, ?_, ?_,
    hrow [first, second] row [first] hseen, hrows [first, second] hread⟩
  · intro hsame
    have hsite := (hsame site (.tail _ (.tail _ (.head _)))).1
    cases hsite
  · intro hsame
    have htrait := (hsame trait (.tail _ (.head _))).1
    cases htrait
  · intro hvalue
    cases hvalue

end Request

end GraphRequest
