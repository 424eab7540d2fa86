import GraphRequest.Proofs.Fold.Repetition
import GraphRequest.Proofs.Fold.Reporting

/-!
# Dead branches carry no information

Where an optional match finds nothing, the id of the node is missing from the row.  What the row has
in the columns of the nodes below may be left over from anywhere, ids included.

* `Request.Live` — the nodes that are live in a row: they have an id in it, and so have all nodes
  above them.
* `Request.AgreeLive` — that the same nodes are live in two rows, and that the rows agree on the
  columns of these nodes.
* `Request.AgreeLive.inChild` — if the root is live, this is so of each child, because two children
  have no nodes in common.
* **`Request.reduce_eq_of_agreeLive`** — hence such rows are reduced to the same records.
-/

namespace GraphRequest

namespace Request

/-- The nodes of a request that are live in a row: a node has an id in it, and so have all nodes
    above it. -/
inductive Live (row : Row) : Request → Request → Prop
  | root {request : Request} (hid : (request.pattern.identity? row).isSome = true) :
      Live row request request
  | inside {request child node : Request} (hid : (request.pattern.identity? row).isSome = true)
      (hchild : child ∈ request.children) (hlive : Live row child node) : Live row request node

/-- That the same nodes are live in two rows, and that the rows agree on the columns of these.  The
    columns of a node are only those it is reported with, so that rows may differ in its labels,
    say, as long as they are not asked for. -/
structure AgreeLive (request : Request) (row other : Row) : Prop where
  live : ∀ node, Live row request node ↔ Live other request node
  columns : ∀ node, Live row request node → row.AgreeOn node.pattern.columns other

variable {row other : Row} {request node child : Request}

lemma Live.identity?_root (h : Live row request node) :
    (request.pattern.identity? row).isSome = true := by
  cases h <;> assumption

lemma Live.mem_nodes (h : Live row request node) : node ∈ request.nodes := by
  induction h with
  | root => exact mem_nodes_self _
  | inside _ hchild _ ih => exact Request.mem_nodes.mpr (Or.inr (nodes_subset_nodesOf hchild ih))

/-- No node stands below two children. -/
lemma eq_of_mem_nodes {children : List Request} (hnodup : (nodesOf children).Nodup)
    {child' : Request} (hchild : child ∈ children) (hchild' : child' ∈ children)
    (h : node ∈ child.nodes) (h' : node ∈ child'.nodes) : child = child' := by
  induction children with
  | nil => simp at hchild
  | cons first children ih =>
      rw [nodesOf_cons, List.nodup_append'] at hnodup
      obtain ⟨-, hrest, hdisjoint⟩ := hnodup
      rcases List.mem_cons.mp hchild with hfirst | hmem <;>
        rcases List.mem_cons.mp hchild' with hfirst' | hmem'
      · exact hfirst.trans hfirst'.symm
      · exact absurd (nodes_subset_nodesOf hmem' h') (hdisjoint (hfirst ▸ h))
      · exact absurd (nodes_subset_nodesOf hmem h) (hdisjoint (hfirst' ▸ h'))
      · exact ih hrest hmem hmem'

/-- A live node of a subtree is live in the subtree. -/
lemma Live.of_mem_child (hnodup : request.nodes.Nodup) (hchild : child ∈ request.children)
    (hnode : node ∈ child.nodes) (h : Live row request node) : Live row child node := by
  rw [nodes_eq, List.nodup_cons] at hnodup
  obtain ⟨hroot, hbelow⟩ := hnodup
  cases h with
  | root => exact absurd (nodes_subset_nodesOf hchild hnode) hroot
  | inside _ hchild' hlive =>
      rwa [eq_of_mem_nodes hbelow hchild hchild' hnode hlive.mem_nodes]

lemma AgreeLive.inChild (h : request.AgreeLive row other) (hnodup : request.nodes.Nodup)
    (hchild : child ∈ request.children)
    (hid : (request.pattern.identity? row).isSome = true)
    (hid' : (request.pattern.identity? other).isSome = true) : child.AgreeLive row other where
  live node := by
    refine ⟨fun hlive => ?_, fun hlive => ?_⟩
    · exact ((h.live node).mp (.inside hid hchild hlive)).of_mem_child hnodup hchild hlive.mem_nodes
    · exact ((h.live node).mpr (.inside hid' hchild hlive)).of_mem_child hnodup hchild
        hlive.mem_nodes
  columns node hlive := h.columns node (.inside hid hchild hlive)

/-- **Rows that agree where they are live do the same.**  Without an id of the root neither does
    anything.  With one the rows agree on its columns and, by induction, do the same below. -/
theorem absorb_eq_of_agreeLive (hnodup : request.nodes.Nodup)
    (h : request.AgreeLive row other) (scope : Scope) :
    absorb row request scope = absorb other request scope := by
  induction request using Request.induction generalizing scope with
  | node pattern children ih =>
      have hroot : (pattern.identity? row).isSome = true
          ↔ (pattern.identity? other).isSome = true :=
        ⟨fun hid => ((h.live _).mp (.root hid)).identity?_root,
          fun hid => ((h.live _).mpr (.root hid)).identity?_root⟩
      by_cases hid : (pattern.identity? row).isSome = true
      · refine absorb_ext (h.columns _ (.root hid)) (fun child hchild => ?_) scope
        have hbelow := nodes_sublist (mem_nodes_of_mem_children
          (mem_nodes_self ⟨pattern, children⟩) hchild)
        exact ih child hchild (hnodup.sublist hbelow) (h.inChild hnodup hchild hid (hroot.mp hid))
      · have hid' := mt hroot.mpr hid
        rw [Bool.not_eq_true, Option.isSome_eq_false_iff, Option.isNone_iff_eq_none] at hid hid'
        rw [absorb, absorb, hid, hid']

/-- **Dead branches carry no information.**  Rows of which, one by one, the same nodes are live and
    which agree on the columns of these are reduced to the same records, whatever they have in other
    columns. -/
theorem reduce_eq_of_agreeLive (haccepted : request.Accepted) {rows others : List Row}
    (h : List.Forall₂ request.AgreeLive rows others) :
    request.reduce rows = request.reduce others := by
  have hnodup := haccepted.wellFormed.nodup_nodes
  have hfold : request.fold rows = request.fold others :=
    fold_ext (h.imp fun _ _ hrow => absorb_eq_of_agreeLive hnodup hrow)
  rw [reduce, reduce, hfold]

/-- A gene has no trait in two rows.  One of them has something left over in the columns of the
    trait, and an id of a site below it; the other has nothing there. -/
theorem reduce_eq_of_agreeLive_gene_without_traits :
    ∃ (request : Request) (row other : Row), request.Accepted
      ∧ List.Forall₂ request.AgreeLive [row] [other]
      ∧ row = [("__Geneid", .bool true), ("__tid", .null), ("__tr", .string "e"),
        ("t.p", .string "x"), ("__sid", .bool true), ("s.q", .string "y")]
      ∧ other = [("__Geneid", .bool true)]
      ∧ request.reduce [row] = request.reduce [other] := by
  let request : Request := ⟨⟨"Gene", "Gene", [], none, false, false, false, ["name"], none⟩,
    [⟨⟨"Trait", "t", [], some ":has", false, true, false, ["p"], some "Gene"⟩,
      [⟨⟨"Site", "s", [], some ":at", false, false, false, ["q"], some "t"⟩, []⟩]⟩]⟩
  let row : Row := [("__Geneid", .bool true), ("__tid", .null), ("__tr", .string "e"),
    ("t.p", .string "x"), ("__sid", .bool true), ("s.q", .string "y")]
  let other : Row := [("__Geneid", .bool true)]
  have haccepted : request.Accepted := by
    let text := "Gene() \x7b name, Trait(relationship: \":has\") as t \x7b "
      ++ "relationships, p, Site(relationship: \":at\") as s \x7b q \x7d \x7d \x7d"
    have htokens : Token.ofText text
        = [.ident "Gene", .punctuation .leftParen, .punctuation .rightParen,
          .punctuation .leftBrace, .ident "name", .punctuation .comma, .ident "Trait",
          .punctuation .leftParen, .ident "relationship", .punctuation .colon, .string ":has",
          .punctuation .rightParen, .ident "as", .ident "t", .punctuation .leftBrace,
          .ident "relationships", .punctuation .comma, .ident "p", .punctuation .comma,
          .ident "Site", .punctuation .leftParen, .ident "relationship", .punctuation .colon,
          .string ":at", .punctuation .rightParen, .ident "as", .ident "s",
          .punctuation .leftBrace, .ident "q", .punctuation .rightBrace, .punctuation .rightBrace,
          .punctuation .rightBrace] := by
      decide +kernel
    refine ⟨text, ?_⟩
    rw [ofText, htokens]
    rfl
  have hlive : ∀ row : Row, (request.pattern.identity? row).isSome = true →
      row.present? "__tid" = none → ∀ node, Live row request node ↔ node = request := by
    refine fun row hid htrait node => ⟨?_, by rintro rfl; exact .root hid⟩
    rintro (_ | ⟨_, hchild, hlive⟩)
    · rfl
    · obtain rfl := List.mem_singleton.mp hchild
      have hnone := hlive.identity?_root
      rw [Pattern.identity?, Pattern.idColumn] at hnone
      exact absurd hnone (by simp [htrait])
  have hagree : request.AgreeLive row other := by
    refine ⟨fun node => ?_, fun node hnode => ?_⟩
    · rw [hlive row rfl rfl, hlive other rfl rfl]
    · obtain rfl := (hlive row rfl rfl node).mp hnode
      exact List.forall_mem_cons.mpr ⟨rfl, List.forall_mem_cons.mpr ⟨rfl, List.forall_mem_nil _⟩⟩
  have hrows : List.Forall₂ request.AgreeLive [row] [other] := .cons hagree .nil
  exact ⟨request, row, other, haccepted, hrows, rfl, rfl, reduce_eq_of_agreeLive haccepted hrows⟩

end Request

end GraphRequest
