import GraphRequest.Proofs.Request.Legibility
import GraphRequest.Proofs.Request.Walk

/-!
# The names of a query are in scope

The clauses of a query are made by recursion: a node below another is matched optionally, and it
hangs on the name of the node the recursion comes from.  A node also keeps by itself what it hangs
on, so that the query could as well be made on a walk, from one node after the other.  In a
well-formed tree the two give the same text.

On the walk it can be seen that every name is bound before it is used.

* `Pattern.storedClause`, `Request.walkedText` — the clause of a pattern as far as the pattern
  itself tells it, and the query text made of these.
* `PatternClause.above?`, `PatternClause.introduced?` — the name a clause hangs on and the name it
  introduces, read from the clause (`Pattern.above?_storedClause`,
  `Pattern.introduced?_storedClause`).
* `Scoped` — patterns that hang on names bound before them.  The invariant is that the trees below
  a node need no other name than that of the node (`Request.scoped_patternsOf`); so it does not
  matter how many names their siblings have bound in the meantime.
* `ReturnClause.subject?` — the name a return item is about, read from the item.
* `Request.queryText_walked` — the query text is the one made on the walk, and all names in it are
  in scope (`Request.WellScoped`).
-/

namespace GraphRequest

/-! ## Queries made on a walk -/

namespace Pattern

variable (pattern : Pattern)

/-- The clause of a pattern as far as the pattern itself tells it: a root is matched outright, any
    other pattern through an edge to the node it says it hangs on. -/
def storedClause : String :=
  if pattern.isRoot then "match" ++ pattern.entityText
  else "optional match(" ++ pattern.parent.getD "" ++ ")<-[" ++ pattern.edgeText ++ "]->"
    ++ pattern.entityText

lemma ownClause_eq_storedClause : pattern.ownClause = pattern.storedClause := by
  rw [ownClause, storedClause, isRoot]
  cases pattern.parent <;> rfl

end Pattern

namespace Request

/-- The query text made on a walk, from one node after the other. -/
def walkedText (request : Request) : String :=
  " ".intercalate (request.walk.map fun visit => visit.node.pattern.storedClause) ++ "\nreturn "
    ++ ", ".intercalate (request.walk.flatMap fun visit => visit.node.pattern.returnItems)

/-- The clauses are those of the nodes in order, each told by the node itself. -/
theorem clauses_eq_map_nodes {request : Request} (h : request.WellFormed) :
    request.clauses none = request.nodes.map fun node => node.pattern.storedClause := by
  rw [← h.root_parent, clauses_eq request h.linked, patterns_eq, List.map_map]
  exact List.map_congr_left fun node _ => node.pattern.ownClause_eq_storedClause

lemma queryText_eq_walkedText {request : Request} (h : request.WellFormed) :
    request.queryText = request.walkedText := by
  rw [queryText, walkedText, clauses_eq_map_nodes h, returnItems_eq,
    map_walk _ fun node => node.pattern.storedClause,
    flatMap_walk _ fun node => node.pattern.returnItems]

end Request

/-! ## Names bound before they are used -/

/-- That patterns come after what they hang on: each of them hangs on one of the names that are
    bound, and from then on its own name is bound as well. -/
def Scoped (bound : List String) : List Pattern → Prop
  | [] => True
  | pattern :: patterns =>
    (∃ parent ∈ bound, pattern.parent = some parent) ∧ Scoped (pattern.name :: bound) patterns

namespace Scoped

variable {bound more : List String} {patterns others : List Pattern}

lemma mono (h : Scoped bound patterns) (hsub : bound ⊆ more) : Scoped more patterns := by
  induction patterns generalizing bound more with
  | nil => trivial
  | cons pattern patterns ih =>
      obtain ⟨⟨parent, hmem, hparent⟩, hrest⟩ := h
      exact ⟨⟨parent, hsub hmem, hparent⟩, ih hrest (List.cons_subset_cons _ hsub)⟩

lemma append (h : Scoped bound patterns) (h' : Scoped bound others) :
    Scoped bound (patterns ++ others) := by
  induction patterns generalizing bound with
  | nil => exact h'
  | cons pattern patterns ih =>
      exact ⟨h.1, ih h.2 (h'.mono (List.subset_cons_self _ _))⟩

/-- The name a pattern hangs on was bound at the beginning or by a pattern before it. -/
lemma parent_mem {before after : List Pattern} {pattern : Pattern} {parent : String}
    (h : Scoped bound (before ++ pattern :: after)) (hparent : pattern.parent = some parent) :
    parent ∈ bound ∨ parent ∈ before.map Pattern.name := by
  induction before generalizing bound with
  | nil =>
      obtain ⟨⟨above, hmem, habove⟩, -⟩ := h
      obtain rfl : above = parent := Option.some.inj (habove.symm.trans hparent)
      exact Or.inl hmem
  | cons other before ih =>
      rw [List.map_cons, List.mem_cons]
      rcases ih h.2 with hbound | hbefore
      · exact (List.mem_cons.mp hbound).elim (Or.inr ∘ Or.inl) Or.inl
      · exact Or.inr (Or.inr hbefore)

end Scoped

namespace Request

mutual

lemma scoped_patterns : ∀ (request : Request) (parent : String) (bound : List String),
    request.pattern.HangsOn parent → (∀ node ∈ request.nodes, node.Linked) → parent ∈ bound →
      Scoped bound request.patterns
  | ⟨pattern, children⟩ => by
      intro parent bound hhangs hlinked hbound
      rw [nodes_eq, List.forall_mem_cons] at hlinked
      exact ⟨⟨parent, hbound, hhangs.parent⟩,
        scoped_patternsOf children _ _ ⟨hlinked.1, hlinked.2⟩ List.mem_cons_self⟩
termination_by structural request => request

/-- Trees below a node need only the name of the node to be bound. -/
lemma scoped_patternsOf : ∀ (requests : List Request) (parent : String) (bound : List String),
    LinkedBelow parent requests → parent ∈ bound → Scoped bound (patternsOf requests)
  | [] => fun _ _ _ _ => trivial
  | request :: requests => by
      intro parent bound ⟨hhang, hlinked⟩ hbound
      obtain ⟨hrequest, hrequests⟩ := List.forall_mem_cons.mp hhang
      rw [nodesOf_cons, List.forall_mem_append] at hlinked
      rw [patternsOf_cons]
      exact (scoped_patterns request _ _ hrequest hlinked.1 hbound).append
        (scoped_patternsOf requests _ _ ⟨hrequests, hlinked.2⟩ hbound)
termination_by structural requests => requests

end

/-- In a well-formed tree every pattern hangs on the name of one before it. -/
lemma WellFormed.parent_mem {request : Request} (h : request.WellFormed)
    {before after : List Pattern} {pattern : Pattern} {parent : String}
    (hsplit : request.patterns = before ++ pattern :: after)
    (hparent : pattern.parent = some parent) : parent ∈ before.map Pattern.name := by
  obtain ⟨root, children⟩ := request
  have hroot : root.parent = none := h.root_parent
  cases before with
  | nil =>
      obtain rfl := (List.cons.inj hsplit).1
      exact nomatch hroot.symm.trans hparent
  | cons first before =>
      obtain ⟨rfl, hbelow⟩ := List.cons.inj hsplit
      have hscoped := scoped_patternsOf children _ [root.name] h.namedBelow.below List.mem_cons_self
      have hbound := Scoped.parent_mem (hbelow ▸ hscoped) hparent
      rw [List.map_cons, List.mem_cons]
      exact hbound.imp_left List.mem_singleton.mp

end Request

/-! ## Names in pattern clauses -/

namespace PatternClause

/-- The name a clause hangs on.  A node that is matched outright hangs on none. -/
def above? (clause : String) : Option String :=
  (clause.toList.dropPrefix? "optional match(".toList).map fun inside =>
    String.ofList (inside.takeWhile isNameChar)

/-- The entity of a clause: what stands behind the edge, or behind the keyword if there is no edge.

    Nothing is escaped in an edge, which may have brackets and entities of its own, so it has to be
    known what the text of the edge is. -/
def entity? (edge clause : String) : Option (List Char) :=
  match above? clause with
  | none => clause.toList.dropPrefix? "match".toList
  | some _ =>
    ((clause.toList.dropWhile (· != '[')).tail.dropWhile isNameChar).dropPrefix?
      (edge.toList.dropWhile isNameChar ++ "]->".toList)

/-- The name a clause introduces.  In front of it is a parenthesis, and behind it comes the type. -/
def introduced? (edge clause : String) : Option String :=
  match entity? edge clause with
  | some ('(' :: inside) =>
    match inside.dropWhile isNameChar with
    | ':' :: _ => some (String.ofList (inside.takeWhile isNameChar))
    | _ => none
  | _ => none

end PatternClause

namespace Pattern

variable {pattern : Pattern} {parent edge : String}

lemma isNameChar_of_mem_edgeColumn (hname : IsName pattern.name) :
    ∀ c ∈ pattern.edgeColumn.toList, isNameChar c = true := by
  have hlead : ∀ c ∈ "__".toList, isNameChar c = true := List.all_eq_true.mp (by decide)
  have htail : ∀ c ∈ "r".toList, isNameChar c = true := List.all_eq_true.mp (by decide)
  simp only [edgeColumn, String.toList_append, List.forall_mem_append]
  exact ⟨⟨hlead, hname.all⟩, htail⟩

lemma toList_storedClause_root (hparent : pattern.parent = none) :
    pattern.storedClause.toList = "match".toList ++ pattern.entityText.toList := by
  rw [← ownClause_eq_storedClause, toList_ownClause_root hparent]

lemma toList_storedClause_child (hparent : pattern.parent = some parent)
    (hedge : pattern.edge = some edge) :
    pattern.storedClause.toList = "optional match(".toList ++ (parent.toList ++ ')' :: ("<-".toList
      ++ '[' :: (pattern.edgeColumn.toList ++ (edge.toList ++ ']' :: ("->".toList
        ++ pattern.entityText.toList))))) := by
  rw [← ownClause_eq_storedClause, toList_ownClause_child hparent hedge]
  simp [edgeColumn]

/-- The first bracket is that of the edge. -/
lemma dropWhile_storedClause (hparent : pattern.parent = some parent) (habove : IsName parent)
    (hedge : pattern.edge = some edge) :
    pattern.storedClause.toList.dropWhile (· != '[') = '[' :: (pattern.edgeColumn.toList
      ++ (edge.toList ++ ']' :: ("->".toList ++ pattern.entityText.toList))) := by
  have hname : ∀ c ∈ parent.toList, (c != '[') = true := by
    intro c hc
    rw [bne_iff_ne]
    rintro rfl
    exact absurd (habove.all _ hc) (by decide)
  have hfront : ∀ c ∈ "optional match(".toList ++ (parent.toList ++ ")<-".toList),
      (c != '[') = true := by
    simp only [List.forall_mem_append]
    exact ⟨List.all_eq_true.mp (by decide), hname, List.all_eq_true.mp (by decide)⟩
  have hclause : pattern.storedClause.toList
      = ("optional match(".toList ++ (parent.toList ++ ")<-".toList)) ++ '[' ::
        (pattern.edgeColumn.toList ++ (edge.toList ++ ']' :: ("->".toList
          ++ pattern.entityText.toList))) := by
    simp [toList_storedClause_child hparent hedge]
  rw [hclause]
  exact (takeWhile_dropWhile_append hfront (by simp)).2

/-- A clause is read to hang on what the pattern says it hangs on. -/
lemma above?_storedClause (hhung : pattern.Hung) :
    PatternClause.above? pattern.storedClause = pattern.parent := by
  rcases hhung with ⟨hparent, -⟩ | ⟨parent, edge, hparent, habove, hedge⟩
  · rw [PatternClause.above?, toList_storedClause_root hparent, hparent]
    rfl
  · rw [PatternClause.above?, toList_storedClause_child hparent hedge,
      List.dropPrefix?_append_of_beq _ (beq_self_eq_true _), Option.map_some,
      (habove.parted (nameEnds_cons.mpr (by decide))).1, String.ofList_toList, hparent]

/-- The entity of a clause is found whatever the edge is. -/
lemma entity?_storedClause (hname : IsName pattern.name) (hhung : pattern.Hung) :
    PatternClause.entity? (pattern.edge.getD "") pattern.storedClause
      = some pattern.entityText.toList := by
  have habove := above?_storedClause hhung
  rcases hhung with ⟨hparent, -⟩ | ⟨parent, edge, hparent, hparentName, hedge⟩
  · rw [PatternClause.entity?, habove, hparent, toList_storedClause_root hparent]
    exact List.dropPrefix?_append_of_beq _ (beq_self_eq_true _)
  · have hrest : edge.toList.dropWhile isNameChar ++ ']' :: ("->".toList
          ++ pattern.entityText.toList)
        = (edge.toList.dropWhile isNameChar ++ "]->".toList) ++ pattern.entityText.toList := by
      simp
    -- What is behind the name of the edge begins as the text of the edge goes on behind a name.
    rw [PatternClause.entity?, habove, hparent, dropWhile_storedClause hparent hparentName hedge,
      List.tail_cons, List.dropWhile_append_of_pos (isNameChar_of_mem_edgeColumn hname),
      dropWhile_isNameChar_append _ _ (by decide), hrest, hedge, Option.getD_some]
    exact List.dropPrefix?_append_of_beq _ (beq_self_eq_true _)

/-- A clause is read to introduce the name of its node. -/
lemma introduced?_storedClause (hname : IsName pattern.name) (hhung : pattern.Hung) :
    PatternClause.introduced? (pattern.edge.getD "") pattern.storedClause = some pattern.name := by
  let behind : List Char := ':' :: (pattern.typeName ++ pattern.filterText ++ ")").toList
  have hentity : pattern.entityText.toList = '(' :: (pattern.name.toList ++ behind) := by
    simp [entityText, behind]
  obtain ⟨htake, hdrop⟩ := hname.parted (nameEnds_cons.mpr (by decide) : NameEnds behind)
  rw [PatternClause.introduced?, entity?_storedClause hname hhung, hentity]
  simp only [hdrop, htake, behind, String.ofList_toList]

end Pattern

/-! ## Names in return items -/

namespace ReturnClause

/-- The name a return item is about: it is what the item begins with, or what stands between the
    parentheses if there are any behind that.  An item that is nothing but a name is the variable of
    an edge, and about no node. -/
def subject? (item : String) : Option String :=
  match item.toList.dropWhile isNameChar with
  | [] => none
  | '(' :: inside => some (String.ofList (inside.takeWhile isNameChar))
  | _ => some (String.ofList (item.toList.takeWhile isNameChar))

lemma subject?_eq_none {item : String} (h : ∀ c ∈ item.toList, isNameChar c = true) :
    subject? item = none := by
  rw [subject?, List.dropWhile_eq_nil_iff.mpr h]

lemma subject?_of_front {item name : String} (hname : IsName name) {c : Char} {rest : List Char}
    (hitem : item.toList = name.toList ++ c :: rest) (hc : isNameChar c = false) (hne : c ≠ '(') :
    subject? item = some name := by
  obtain ⟨htake, hdrop⟩ := hname.parted (nameEnds_cons.mpr hc : NameEnds (c :: rest))
  rw [subject?, hitem, hdrop, htake, String.ofList_toList]
  split
  · contradiction
  · rename_i hcons
    exact absurd (List.cons.inj hcons).1 hne
  · rfl

lemma subject?_of_call {item name : String} (hname : IsName name) {function rest : List Char}
    (hitem : item.toList = function ++ '(' :: (name.toList ++ ')' :: rest))
    (hfunction : ∀ c ∈ function, isNameChar c = true) : subject? item = some name := by
  have hopens : ∀ c, ('(' :: (name.toList ++ ')' :: rest)).head? = some c →
      isNameChar c = false := by simp [isNameChar]
  have hdrop := (takeWhile_dropWhile_append hfunction hopens).2
  have htake := (hname.parted (nameEnds_cons.mpr (by decide) : NameEnds (')' :: rest))).1
  rw [subject?, hitem, hdrop]
  simp only [htake, String.ofList_toList]

end ReturnClause

namespace Pattern

/-- A return item is about the node it is made for, unless it is the variable of the edge. -/
lemma subject?_returnItem {pattern : Pattern} (hname : IsName pattern.name) (column : Column) :
    ReturnClause.subject? (pattern.returnItem column)
      = if column = .edge then none else some pattern.name := by
  cases column with
  | id =>
      have hitem : (pattern.returnItem .id).toList = "id".toList
          ++ '(' :: (pattern.name.toList ++ ')' :: (" as ".toList ++ pattern.idColumn.toList)) := by
        simp [returnItem, source?, column]
      exact ReturnClause.subject?_of_call hname hitem (List.all_eq_true.mp (by decide))
  | labels =>
      have hitem : (pattern.returnItem .labels).toList = "labels".toList ++ '(' ::
          (pattern.name.toList ++ ')' :: (" as ".toList ++ pattern.labelsColumn.toList)) := by
        simp [returnItem, source?, column]
      exact ReturnClause.subject?_of_call hname hitem (List.all_eq_true.mp (by decide))
  | graph =>
      have hitem : (pattern.returnItem .graph).toList
          = pattern.name.toList ++ ' ' :: ("as ".toList ++ pattern.graphColumn.toList) := by
        simp [returnItem, source?, column]
      exact ReturnClause.subject?_of_front hname hitem (by decide) (by decide)
  | field field =>
      have hitem : (pattern.returnItem (.field field)).toList
          = pattern.name.toList ++ '.' :: field.toList := by
        simp [returnItem, source?, column, fieldColumn]
      exact ReturnClause.subject?_of_front hname hitem (by decide) (by decide)
  | edge =>
      refine ReturnClause.subject?_eq_none ?_
      have hlast : isNameChar 'r' = true := by decide
      simpa [returnItem, source?, column, edgeColumn, isNameChar, or_imp, forall_and]
        using hname.all

end Pattern

/-! ## The scope of a query -/

namespace Request

/-- The clause of the node that is visited. -/
def Visit.clause (visit : Visit) : String :=
  visit.node.pattern.storedClause

/-- The name that the clause of a visit introduces, read from the clause. -/
def Visit.introduced? (visit : Visit) : Option String :=
  PatternClause.introduced? (visit.node.pattern.edge.getD "") visit.clause

/-- The names that the clauses of visits introduce, in order. -/
def introduced (visits : List Visit) : List String :=
  visits.filterMap Visit.introduced?

/-- **Names in scope**, as they are read from the clauses and the return items.

* `names` — every clause introduces a name, which is that of its node, and hangs on the name that
  the node says;
* `parents` — the name a clause hangs on is introduced once, and by a clause before it;
* `items` — a return item is about the node it is made for, whose name is introduced once, or it is
  the variable of the edge;
* `reported` — every node has a return item that is about it. -/
structure WellScoped (request : Request) : Prop where
  names : ∀ visit ∈ request.walk, visit.introduced? = some visit.node.pattern.name
    ∧ PatternClause.above? visit.clause = visit.node.pattern.parent
  parents : ∀ before visit after, request.walk = before ++ visit :: after → ∀ parent,
    PatternClause.above? visit.clause = some parent →
      parent ∈ introduced before ∧ (introduced request.walk).count parent = 1
  items : ∀ visit ∈ request.walk, ∀ item ∈ visit.node.pattern.returnItems,
    ReturnClause.subject? item = some visit.node.pattern.name
        ∧ (introduced request.walk).count visit.node.pattern.name = 1
      ∨ ReturnClause.subject? item = none ∧ item = visit.node.pattern.edgeColumn
  reported : ∀ visit ∈ request.walk, ∃ item ∈ visit.node.pattern.returnItems,
    ReturnClause.subject? item = some visit.node.pattern.name

/-- In a well-formed tree the clause of each visit introduces the name of the node. -/
lemma WellFormed.introduced?_visit {request : Request} (h : request.WellFormed) {visit : Visit}
    (hvisit : visit ∈ request.walk) : visit.introduced? = some visit.node.pattern.name := by
  have hnode := node_mem_of_mem_walk hvisit
  exact Pattern.introduced?_storedClause (h.lexical _ hnode).name (h.hung _ hnode)

lemma WellFormed.introduced_eq {request : Request} (h : request.WellFormed) {visits : List Visit}
    (hvisits : visits ⊆ request.walk) :
    introduced visits = visits.map fun visit => visit.node.pattern.name := by
  rw [introduced, List.filterMap_congr fun visit hvisit => h.introduced?_visit (hvisits hvisit),
    List.filterMap_eq_map']

lemma WellFormed.introduced_walk {request : Request} (h : request.WellFormed) :
    introduced request.walk = request.nodes.map fun node => node.pattern.name := by
  rw [h.introduced_eq (List.Subset.refl _)]
  exact map_walk request fun node => node.pattern.name

/-- No name is introduced twice. -/
lemma WellFormed.count_introduced {request : Request} (h : request.WellFormed) {name : String}
    (hmem : name ∈ introduced request.walk) : (introduced request.walk).count name = 1 := by
  have hnames := h.names
  rw [← h.introduced_walk] at hnames
  exact List.count_eq_one_of_mem hnames hmem

lemma WellFormed.wellScoped {request : Request} (h : request.WellFormed) : request.WellScoped where
  names := by
    intro visit hvisit
    have hhung := h.hung _ (node_mem_of_mem_walk hvisit)
    exact ⟨h.introduced?_visit hvisit, Pattern.above?_storedClause hhung⟩
  parents := by
    intro before visit after hwalk parent habove
    have hvisit : visit ∈ request.walk := by simp [hwalk]
    have hearlier : before ⊆ request.walk := by simp [hwalk]
    have hhung := h.hung _ (node_mem_of_mem_walk hvisit)
    have hparent : visit.node.pattern.parent = some parent :=
      (Pattern.above?_storedClause hhung).symm.trans habove
    have hbefore : parent ∈ introduced before := by
      have hpatterns : request.patterns = before.map (fun visit => visit.node.pattern)
          ++ visit.node.pattern :: after.map fun visit => visit.node.pattern := by
        rw [patterns_eq, ← map_walk request pattern, hwalk, List.map_append, List.map_cons]
      have hmem := h.parent_mem hpatterns hparent
      rw [h.introduced_eq hearlier]
      rwa [List.map_map] at hmem
    refine ⟨hbefore, h.count_introduced ?_⟩
    rw [hwalk, introduced, List.filterMap_append]
    exact List.mem_append_left _ hbefore
  items := by
    intro visit hvisit item hitem
    have hnode := node_mem_of_mem_walk hvisit
    rw [Pattern.returnItems_eq] at hitem
    obtain ⟨column, -, rfl⟩ := List.mem_map.mp hitem
    rw [Pattern.subject?_returnItem (h.lexical _ hnode).name]
    by_cases hedge : column = .edge
    · subst hedge
      exact Or.inr ⟨if_pos rfl, rfl⟩
    · refine Or.inl ⟨if_neg hedge, h.count_introduced ?_⟩
      exact List.mem_filterMap.mpr ⟨visit, hvisit, h.introduced?_visit hvisit⟩
  reported := by
    intro visit hvisit
    have hname := (h.lexical _ (node_mem_of_mem_walk hvisit)).name
    refine ⟨visit.node.pattern.returnItem .id, ?_, Pattern.subject?_returnItem hname .id⟩
    rw [Pattern.returnItems_eq]
    exact List.mem_map_of_mem (by simp [Pattern.held])

/-- **The query text is the one made on the walk, and its names are in scope.** -/
theorem queryText_walked {request : Request} (h : request.Accepted) :
    request.queryText = request.walkedText ∧ request.WellScoped :=
  ⟨queryText_eq_walkedText h.wellFormed, h.wellFormed.wellScoped⟩

/-- A gene, its traits and its sites are introduced in this order, and the two latter hang on the
    gene. -/
theorem queryText_walked_gene_with_traits_and_sites :
    ∃ request : Request, request.Accepted ∧ request.queryText = request.walkedText
      ∧ request.WellScoped ∧ introduced request.walk = ["Gene", "t", "s"]
      ∧ (request.walk.map fun visit => PatternClause.above? visit.clause)
        = [none, some "Gene", some "Gene"]
      ∧ request.returnItems.filterMap ReturnClause.subject?
        = ["Gene", "Gene", "t", "t", "s", "s"] := by
  have haccepted : Accepted _ := ⟨_, ofText_gene_with_traits_and_sites⟩
  obtain ⟨htext, hscoped⟩ := queryText_walked haccepted
  refine ⟨_, haccepted, htext, hscoped, ?_, ?_, by decide +kernel⟩
  · rw [haccepted.wellFormed.introduced_walk]
    rfl
  · rw [List.map_congr_left fun visit hvisit => (hscoped.names visit hvisit).2,
      map_walk _ fun node => node.pattern.parent]
    rfl

end Request

end GraphRequest
