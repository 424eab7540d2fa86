import GraphRequest.Proofs.Request.ReturnClause

/-!
# The query text determines the request

Nothing is escaped in a query text, and it has no mark for where the children of a node end.  It
can be read all the same, if no string in a filter has a quotation mark and no edge has a closing
bracket; a string that had one could pass for two filters.

* **One clause** — every part of a pattern clause ends where the text says so: names and numerals
  where another kind of character comes, strings and edges at the mark that they do not have
  (`Legible`, `Pattern.legible_clause`).
* **The return clause** — the columns it names say what each node reports, and the column of its id
  says where the columns of the next node begin (`Pattern.map_held_eq_of_columns`).
* **The tree** — the patterns stand in the order of the text, each with the name of its parent.
  Names are not used twice, so the children of a node end where a pattern hangs on another one
  (`Request.queried_eq_of_patterns`).

Only the directive `relationships` is not in the text: `Request.queryText_eq_iff`.
-/

namespace GraphRequest

/-! ## What can be told from a text -/

/-- That printed things can be told from one another, whatever text comes after them as long as it
    does not go on with a name, and that it can be told where they end. -/
def Legible {α β : Type} (fit : α → Prop) (print : α → String) (told : α → β) : Prop :=
  ∀ ⦃a b⦄, fit a → fit b → ∀ ⦃rest rest'⦄, NameEnds rest → NameEnds rest' →
    (print a).toList ++ rest = (print b).toList ++ rest' → told a = told b ∧ rest = rest'

lemma legible_word {fit : String → Prop}
    (h : ∀ text, fit text → ∀ c ∈ text.toList, isNameChar c = true) :
    Legible fit id id := by
  intro text text' hfit hfit' rest rest' hends hends' heq
  have hparts := parts_eq (h text hfit) (h text' hfit') (by simpa [NameEnds] using hends)
    (by simpa [NameEnds] using hends') heq
  exact ⟨String.toList_inj.mp hparts.1, hparts.2⟩

lemma legible_name : Legible IsName id id :=
  legible_word fun _ h => h.all

lemma legible_numeral : Legible IsNumeral id id :=
  legible_word fun _ h c hc => (isNameChar_iff c).mpr (Or.inr (h.2 c hc))

section

variable {α β : Type} {fit : α → Prop} {print : α → String} {told : α → β}

/-- That a text behind parts goes on neither with the last of them, if that is a name, nor with a
    separator that begins with `c`. -/
structure Closes (c : Char) (rest : List Char) : Prop where
  ends : NameEnds rest
  closes : rest.head? ≠ some c

lemma closes_cons {c d : Char} (hd : isNameChar d = false) (hne : d ≠ c) (rest : List Char) :
    Closes c (d :: rest) :=
  ⟨nameEnds_cons.mpr hd, by simpa using hne⟩

/-- Things that each come behind a separator can be told apart. -/
lemma Legible.flatMap (h : Legible fit print told) {c : Char} (separator : List Char)
    (hc : isNameChar c = false) {parts others : List α} (hparts : ∀ part ∈ parts, fit part)
    (hothers : ∀ other ∈ others, fit other) {rest rest' : List Char} (hrest : Closes c rest)
    (hrest' : Closes c rest')
    (heq : (parts.flatMap fun part => c :: separator ++ (print part).toList) ++ rest
      = (others.flatMap fun other => c :: separator ++ (print other).toList) ++ rest') :
    parts.map told = others.map told ∧ rest = rest' := by
  have hends : ∀ (more : List α) {rest}, NameEnds rest →
      NameEnds ((more.flatMap fun part => c :: separator ++ (print part).toList) ++ rest) := by
    intro more rest hends
    cases more with
    | nil => exact hends
    | cons part more => simpa using hc
  induction parts generalizing others with
  | nil =>
      cases others with
      | nil => exact ⟨rfl, heq⟩
      | cons other others => exact absurd (congrArg List.head? heq) hrest.closes
  | cons part parts ih =>
      cases others with
      | nil => exact absurd (congrArg List.head? heq).symm hrest'.closes
      | cons other others =>
          obtain ⟨hpart, hparts⟩ := List.forall_mem_cons.mp hparts
          obtain ⟨hother, hothers⟩ := List.forall_mem_cons.mp hothers
          simp only [List.flatMap_cons, List.append_assoc, List.cons_append, List.cons.injEq,
            List.append_cancel_left_eq, true_and] at heq
          obtain ⟨hfirst, hrests⟩ :=
            h hpart hother (hends parts hrest.ends) (hends others hrest'.ends) heq
          obtain ⟨hmap, rfl⟩ := ih hparts hothers hrests
          exact ⟨by rw [List.map_cons, List.map_cons, hfirst, hmap], rfl⟩

/-- The same of things with separators between them. -/
lemma Legible.intercalate (h : Legible fit print told) {c : Char} (separator : List Char)
    (hc : isNameChar c = false) {parts others : List α} (hne : parts ≠ []) (hne' : others ≠ [])
    (hparts : ∀ part ∈ parts, fit part) (hothers : ∀ other ∈ others, fit other)
    {rest rest' : List Char} (hrest : Closes c rest) (hrest' : Closes c rest')
    (heq : (c :: separator).intercalate (parts.map fun part => (print part).toList) ++ rest
      = (c :: separator).intercalate (others.map fun other => (print other).toList) ++ rest') :
    parts.map told = others.map told ∧ rest = rest' := by
  obtain ⟨part, parts, rfl⟩ := List.exists_cons_of_ne_nil hne
  obtain ⟨other, others, rfl⟩ := List.exists_cons_of_ne_nil hne'
  refine h.flatMap separator hc hparts hothers hrest hrest' ?_
  simpa [intercalate_cons, List.flatMap_map] using heq

end

/-! ## Clear requests -/

/-- That a string has no quotation mark of the kind it is printed between. -/
def Value.Clear : Value → Prop
  | .bound _ => True
  | .number _ => True
  | .string text => '\'' ∉ text.toList

/-- That the strings and the edge of a pattern end where they seem to in a query. -/
structure Pattern.Clear (pattern : Pattern) : Prop where
  filters : ∀ param ∈ pattern.filters, param.value.Clear
  edge : ∀ edge, pattern.edge = some edge → ']' ∉ edge.toList

/-- That all patterns of a request are clear. -/
def Request.Clear (request : Request) : Prop :=
  ∀ node ∈ request.nodes, node.pattern.Clear

/-! ## The clause of a pattern -/

lemma IsNumeral.append_ne {digits : String} (h : IsNumeral digits) {c : Char}
    (hc : c.isDigit = false) (rest rest' : List Char) : digits.toList ++ rest ≠ c :: rest' := by
  intro heq
  obtain ⟨d, ds, hds⟩ := List.exists_cons_of_ne_nil h.1
  rw [hds] at heq
  obtain rfl := (List.cons.inj heq).1
  exact absurd (h.2 d (hds ▸ List.mem_cons_self)) (by simp [hc])

section

open Value

lemma toList_shown_bound (name : String) :
    (bound name).shown.toList = '\x7b' :: (name.toList ++ ['\x7d']) := by
  simp [shown, placeholder]

lemma toList_shown_number (digits : String) : (number digits).shown.toList = digits.toList := rfl

lemma toList_shown_string (text : String) :
    (string text).shown.toList = '\'' :: (text.toList ++ ['\'']) := by
  simp [shown]

/-- The first character of a value tells its kind. -/
lemma legible_value : Legible (fun value => value.Lexical ∧ value.Clear) shown id := by
  intro value value' hfit hfit' rest rest' hends hends' heq
  cases value with
  | bound name =>
      rw [toList_shown_bound] at heq
      cases value' with
      | bound name' =>
          simp only [toList_shown_bound, List.cons_append, List.append_assoc, List.cons.injEq,
            true_and] at heq
          obtain ⟨rfl, hrest⟩ := legible_name hfit.1 hfit'.1 (nameEnds_cons.mpr (by decide))
            (nameEnds_cons.mpr (by decide)) heq
          exact ⟨rfl, (List.cons.inj hrest).2⟩
      | number digits =>
          exact absurd heq.symm (hfit'.1.append_ne rfl _ _)
      | string text => simp [toList_shown_string] at heq
  | number digits =>
      rw [toList_shown_number] at heq
      cases value' with
      | bound name' =>
          rw [toList_shown_bound] at heq
          exact absurd heq (hfit.1.append_ne rfl _ _)
      | number digits' =>
          obtain ⟨rfl, rfl⟩ := legible_numeral hfit.1 hfit'.1 hends hends' heq
          exact ⟨rfl, rfl⟩
      | string text =>
          rw [toList_shown_string] at heq
          exact absurd heq (hfit.1.append_ne rfl _ _)
  | string text =>
      rw [toList_shown_string] at heq
      cases value' with
      | bound name => simp [toList_shown_bound] at heq
      | number digits => exact absurd heq.symm (hfit'.1.append_ne rfl _ _)
      | string text' =>
          simp only [toList_shown_string, List.cons_append, List.append_assoc, List.cons.injEq,
            true_and] at heq
          obtain ⟨htext, rfl⟩ := parts_eq_at hfit.2 hfit'.2 heq
          exact ⟨congrArg Value.string (String.toList_inj.mp htext), rfl⟩

end

lemma legible_filter :
    Legible
      (fun param : Parameter => (IsName param.key ∧ param.value.Lexical) ∧ param.value.Clear)
      (fun param => param.key ++ ": " ++ param.value.shown) id := by
  intro param param' ⟨hlexical, hclear⟩ ⟨hlexical', hclear'⟩ rest rest' hends hends' heq
  obtain ⟨key, value⟩ := param
  obtain ⟨key', value'⟩ := param'
  have hkeys : key.toList ++ ':' :: ' ' :: (value.shown.toList ++ rest)
      = key'.toList ++ ':' :: ' ' :: (value'.shown.toList ++ rest') := by simpa using heq
  obtain ⟨rfl, hvalues⟩ := legible_name hlexical.1 hlexical'.1 (nameEnds_cons.mpr (by decide))
    (nameEnds_cons.mpr (by decide)) hkeys
  simp only [List.cons.injEq, true_and] at hvalues
  obtain ⟨rfl, rfl⟩ :=
    legible_value ⟨hlexical.2, hclear⟩ ⟨hlexical'.2, hclear'⟩ hends hends' hvalues
  exact ⟨rfl, rfl⟩

namespace Pattern

lemma filterText_of_nil {pattern : Pattern} (h : pattern.filters = []) :
    pattern.filterText = "" := by
  rw [filterText, h]

lemma toList_filterText {pattern : Pattern} (h : pattern.filters ≠ []) :
    pattern.filterText.toList = ' ' :: '\x7b' :: ([',', ' '].intercalate (pattern.filters.map
      fun filter => (filter.key ++ ": " ++ filter.value.shown).toList) ++ ['\x7d']) := by
  obtain ⟨first, others, hfilters⟩ := List.exists_cons_of_ne_nil h
  rw [filterText, hfilters]
  simp [String.toList_intercalate, Function.comp_def, intercalate_cons]

/-- What the pattern clause says of a node. -/
def matched (pattern : Pattern) : Pattern :=
  { pattern with labels := false, relationships := false, graph := false, fields := [] }

/-- The text of filters that are clear ends with the closing brace. -/
lemma filters_eq_of_filterText {pattern other : Pattern}
    (hfit : ∀ param ∈ pattern.filters,
      (IsName param.key ∧ param.value.Lexical) ∧ param.value.Clear)
    (hfit' : ∀ param ∈ other.filters, (IsName param.key ∧ param.value.Lexical) ∧ param.value.Clear)
    {rest rest' : List Char}
    (h : pattern.filterText.toList ++ ')' :: rest = other.filterText.toList ++ ')' :: rest') :
    pattern.filters = other.filters ∧ rest = rest' := by
  by_cases hnil : pattern.filters = []
  · rw [filterText_of_nil hnil] at h
    by_cases hnil' : other.filters = []
    · rw [filterText_of_nil hnil'] at h
      exact ⟨hnil.trans hnil'.symm, (List.cons.inj h).2⟩
    · simp [toList_filterText hnil'] at h
  · rw [toList_filterText hnil] at h
    by_cases hnil' : other.filters = []
    · simp [filterText_of_nil hnil'] at h
    · rw [toList_filterText hnil'] at h
      simp only [List.cons_append, List.append_assoc, List.cons.injEq, true_and] at h
      obtain ⟨hfilters, hrest⟩ := legible_filter.intercalate [' '] (by decide) hnil hnil' hfit hfit'
        (closes_cons (by decide) (by decide) _) (closes_cons (by decide) (by decide) _) h
      rw [List.map_id, List.map_id] at hfilters
      exact ⟨hfilters, by simpa using hrest⟩

section

variable {pattern other : Pattern} (hlexical : pattern.Lexical) (hlexical' : other.Lexical)
  (hclear : pattern.Clear) (hclear' : other.Clear) {rest rest' : List Char}

include hlexical hlexical' hclear hclear'

/-- The text of an entity ends with its closing parenthesis. -/
lemma eq_of_entityText
    (h : pattern.entityText.toList ++ rest = other.entityText.toList ++ rest') :
    pattern.name = other.name ∧ pattern.typeName = other.typeName
      ∧ pattern.filters = other.filters ∧ rest = rest' := by
  have hnames : pattern.name.toList
        ++ ':' :: (pattern.typeName.toList ++ (pattern.filterText.toList ++ ')' :: rest))
      = other.name.toList
        ++ ':' :: (other.typeName.toList ++ (other.filterText.toList ++ ')' :: rest')) := by
    simpa [entityText] using h
  have hends : ∀ (pattern : Pattern) rest, NameEnds (pattern.filterText.toList ++ ')' :: rest) := by
    intro pattern rest
    by_cases hnil : pattern.filters = []
    · rw [filterText_of_nil hnil]
      exact nameEnds_cons.mpr (by decide)
    · rw [toList_filterText hnil]
      exact nameEnds_cons.mpr (by decide)
  obtain ⟨hname, htypes⟩ := legible_name hlexical.name hlexical'.name
    (nameEnds_cons.mpr (by decide)) (nameEnds_cons.mpr (by decide)) hnames
  obtain ⟨htype, hfilterTexts⟩ := legible_name hlexical.typeName hlexical'.typeName
    (hends pattern rest) (hends other rest') (List.cons.inj htypes).2
  exact ⟨hname, htype, filters_eq_of_filterText
    (fun param hmem => ⟨hlexical.filters param hmem, hclear.filters param hmem⟩)
    (fun param hmem => ⟨hlexical'.filters param hmem, hclear'.filters param hmem⟩) hfilterTexts⟩

end

/-- That a pattern hangs on nothing, or on a node by an edge. -/
def Hung (pattern : Pattern) : Prop :=
  (pattern.parent = none ∧ pattern.edge = none)
    ∨ ∃ parent edge, pattern.parent = some parent ∧ IsName parent ∧ pattern.edge = some edge

/-- The clause of a pattern in a query. -/
def ownClause (pattern : Pattern) : String :=
  pattern.clause pattern.parent

lemma clause_none (pattern : Pattern) :
    pattern.clause none = "match" ++ pattern.entityText :=
  rfl

lemma clause_some (pattern : Pattern) (parent : String) :
    pattern.clause (some parent) = "optional match(" ++ parent ++ ")<-[" ++ pattern.edgeText
      ++ "]->" ++ pattern.entityText :=
  rfl

lemma toList_ownClause_root {pattern : Pattern} (hparent : pattern.parent = none) :
    pattern.ownClause.toList = "match".toList ++ pattern.entityText.toList := by
  rw [ownClause, hparent, clause_none, String.toList_append]

lemma toList_ownClause_child {pattern : Pattern} {parent edge : String}
    (hparent : pattern.parent = some parent) (hedge : pattern.edge = some edge) :
    pattern.ownClause.toList = "optional match(".toList ++ (parent.toList ++ ')' ::
      ("<-[__".toList ++ ((pattern.name.toList ++ 'r' :: edge.toList) ++ ']' ::
        ("->".toList ++ pattern.entityText.toList)))) := by
  rw [ownClause, hparent, clause_some, edgeText, hedge, edgeColumn]
  simp

lemma bracket_not_mem {pattern : Pattern} {edge : String} (hlexical : pattern.Lexical)
    (hclear : pattern.Clear) (hedge : pattern.edge = some edge) :
    ']' ∉ pattern.name.toList ++ 'r' :: edge.toList := by
  intro hmem
  rcases List.mem_append.mp hmem with hname | hrest
  · exact absurd (hlexical.name.all _ hname) (by decide)
  · exact hclear.edge edge hedge (by simpa using hrest)

/-- **A pattern clause can be read**: it tells everything about the node but what is reported, and
    where it ends. -/
theorem legible_clause :
    Legible (fun pattern => pattern.Lexical ∧ pattern.Clear ∧ pattern.Hung) ownClause matched := by
  intro pattern other ⟨hlexical, hclear, hhung⟩ ⟨hlexical', hclear', hhung'⟩ rest rest' _ _ heq
  rcases hhung with ⟨hparent, hedge⟩ | ⟨parent, edge, hparent, hname, hedge⟩ <;>
    rcases hhung' with ⟨hparent', hedge'⟩ | ⟨parent', edge', hparent', hname', hedge'⟩
  · rw [toList_ownClause_root hparent, toList_ownClause_root hparent', List.append_assoc,
      List.append_assoc, List.append_cancel_left_eq] at heq
    obtain ⟨hname, htype, hfilters, rfl⟩ := eq_of_entityText hlexical hlexical' hclear hclear' heq
    exact ⟨by simp [matched, *], rfl⟩
  · -- The clause of a root begins like no other.
    simp [toList_ownClause_root hparent, toList_ownClause_child hparent' hedge'] at heq
  · simp [toList_ownClause_child hparent hedge, toList_ownClause_root hparent'] at heq
  · rw [toList_ownClause_child hparent hedge, toList_ownClause_child hparent' hedge'] at heq
    simp only [List.append_assoc, List.cons_append, List.append_cancel_left_eq] at heq
    obtain ⟨rfl, hedges⟩ := legible_name hname hname' (nameEnds_cons.mpr (by decide))
      (nameEnds_cons.mpr (by decide)) heq
    have hbrackets : (pattern.name.toList ++ 'r' :: edge.toList) ++ ']' ::
          ("->".toList ++ (pattern.entityText.toList ++ rest))
        = (other.name.toList ++ 'r' :: edge'.toList) ++ ']' ::
          ("->".toList ++ (other.entityText.toList ++ rest')) := by
      simpa using hedges
    obtain ⟨hinside, hentities⟩ := parts_eq_at (bracket_not_mem hlexical hclear hedge)
      (bracket_not_mem hlexical' hclear' hedge') hbrackets
    obtain ⟨hnames, htype, hfilters, rfl⟩ := eq_of_entityText hlexical hlexical' hclear hclear'
      (List.append_cancel_left hentities)
    -- Only now that the name is known does the variable of the edge tell where the edge begins.
    rw [hnames, List.append_cancel_left_eq, List.cons.injEq, String.toList_inj] at hinside
    obtain rfl := hinside.2
    exact ⟨by simp [matched, *], rfl⟩

end Pattern

/-! ## The clauses of a tree -/

namespace Request

/-- The patterns of several trees, in the order of the text. -/
def patternsOf (requests : List Request) : List Pattern :=
  (nodesOf requests).map Request.pattern

/-- The patterns of a tree, in the order of the text. -/
def patterns (request : Request) : List Pattern :=
  request.pattern :: patternsOf request.children

lemma patterns_eq (request : Request) : request.patterns = request.nodes.map Request.pattern := by
  rw [patterns, patternsOf, nodes_eq, List.map_cons]

lemma patternsOf_cons (request : Request) (requests : List Request) :
    patternsOf (request :: requests) = request.patterns ++ patternsOf requests := by
  rw [patternsOf, patternsOf, nodesOf_cons, List.map_append, patterns_eq]

lemma forall_mem_patterns {request : Request} {p : Pattern → Prop} :
    (∀ pattern ∈ request.patterns, p pattern) ↔ ∀ node ∈ request.nodes, p node.pattern := by
  rw [patterns_eq, List.forall_mem_map]

mutual

lemma clauses_eq : ∀ request : Request, (∀ node ∈ request.nodes, node.Linked) →
    request.clauses request.pattern.parent = request.patterns.map Pattern.ownClause
  | ⟨pattern, children⟩ => by
      intro h
      rw [nodes_eq, List.forall_mem_cons] at h
      rw [clauses, patterns, List.map_cons, clausesBelow_eq children ⟨h.1, h.2⟩]
      rfl
termination_by structural request => request

lemma clausesBelow_eq {parent : String} : ∀ requests : List Request,
    LinkedBelow parent requests →
      clausesBelow parent requests = (patternsOf requests).map Pattern.ownClause
  | [] => fun _ => rfl
  | request :: requests => by
      intro ⟨hhang, hlinked⟩
      obtain ⟨hrequest, hrequests⟩ := List.forall_mem_cons.mp hhang
      rw [nodesOf_cons, List.forall_mem_append] at hlinked
      rw [clausesBelow, ← hrequest.parent, clauses_eq request hlinked.1,
        clausesBelow_eq requests ⟨hrequests, hlinked.2⟩, patternsOf_cons, List.map_append]
termination_by structural requests => requests

end

lemma WellFormed.hung {request : Request} (h : request.WellFormed) :
    ∀ node ∈ request.nodes, node.pattern.Hung := by
  intro node hnode
  rcases eq_or_mem_children hnode with rfl | ⟨above, habove, hchild⟩
  · exact Or.inl ⟨h.root_parent, h.root_edge⟩
  · obtain ⟨edge, hedge, -⟩ := h.edges above habove node hchild
    have hparent := (h.linked above habove node hchild).parent
    exact Or.inr ⟨_, edge, hparent, (h.lexical above habove).name, hedge⟩

lemma toList_queryText {request : Request} (h : request.WellFormed) :
    request.queryText.toList
      = [' '].intercalate (request.patterns.map fun pattern => pattern.ownClause.toList)
        ++ '\n' :: ("return " ++ ", ".intercalate request.returnItems).toList := by
  rw [queryText, ← h.root_parent, clauses_eq request h.linked]
  simp [String.toList_intercalate, Function.comp_def]

/-- **The pattern clauses can be read**: they tell what every node matches. -/
theorem map_matched_eq_of_queryText {request other : Request} (hwell : request.WellFormed)
    (hwell' : other.WellFormed) (hclear : request.Clear) (hclear' : other.Clear)
    (h : request.queryText = other.queryText) :
    request.patterns.map Pattern.matched = other.patterns.map Pattern.matched := by
  have htext := congrArg String.toList h
  rw [toList_queryText hwell, toList_queryText hwell'] at htext
  refine (Pattern.legible_clause.intercalate [] (by decide) (List.cons_ne_nil _ _)
    (List.cons_ne_nil _ _) ?_ ?_ (closes_cons (by decide) (by decide) _)
    (closes_cons (by decide) (by decide) _) htext).1
  · exact forall_mem_patterns.mpr fun node hnode =>
      ⟨hwell.lexical node hnode, hclear node hnode, hwell.hung node hnode⟩
  · exact forall_mem_patterns.mpr fun node hnode =>
      ⟨hwell'.lexical node hnode, hclear' node hnode, hwell'.hung node hnode⟩

end Request

/-! ## The columns of a tree, node by node -/

/-- The field a column holds, if it holds one. -/
def Column.field? : Column → Option String
  | .field name => some name
  | _ => none

namespace Pattern

/-- The part of a pattern that can be told from its query: all but whether the edges are reported,
    of which only reduction takes notice. -/
def queried (pattern : Pattern) : Pattern :=
  { pattern with relationships := false }

/-- A pattern that reports what is held, apart from the id and the edge. -/
def reporting (pattern : Pattern) (held : List Column) : Pattern :=
  { pattern with
    labels := held.contains .labels
    graph := held.contains .graph
    fields := held.filterMap Column.field? }

/-- What a node matches and what it is reported with is all there is in a query. -/
lemma queried_eq (pattern : Pattern) :
    pattern.queried = pattern.matched.reporting pattern.held := by
  obtain ⟨typeName, name, filters, edge, labels, relationships, graph, fields, parent⟩ := pattern
  have hfields : (fields.map Column.field).filterMap Column.field? = fields := by
    rw [List.filterMap_map]
    exact List.filterMap_some
  cases labels <;> cases graph <;> cases parent <;>
    simp [queried, matched, reporting, held, isRoot, Column.field?, List.filterMap_cons, hfields]

/-- That a text is the id column of a node. -/
def IsIdColumn (text : String) : Prop :=
  ∃ pattern : Pattern, IsName pattern.name ∧ pattern.idColumn = text

lemma columns_eq_cons (pattern : Pattern) :
    pattern.columns = pattern.idColumn :: pattern.held.tail.map pattern.column :=
  rfl

lemma not_isIdColumn_of_mem_tail {pattern : Pattern} (hname : IsName pattern.name) :
    ∀ text ∈ pattern.held.tail.map pattern.column, ¬ IsIdColumn text := by
  intro text hmem ⟨other, hother, hid⟩
  obtain ⟨column, hcolumn, rfl⟩ := List.mem_map.mp hmem
  obtain ⟨-, rfl⟩ : other.name = pattern.name ∧ Column.id = column :=
    column_injective hother hname hid
  simp [held] at hcolumn

lemma column_congr {pattern other : Pattern} (h : pattern.name = other.name) :
    pattern.column = other.column :=
  funext fun column => by rw [column_eq, column_eq, h]

lemma isIdColumn_of_head? {patterns : List Pattern}
    (h : ∀ pattern ∈ patterns, IsName pattern.name) :
    ∀ text, (patterns.flatMap columns).head? = some text → IsIdColumn text := by
  intro text htext
  cases patterns with
  | nil => cases htext
  | cons pattern patterns => exact ⟨pattern, h pattern List.mem_cons_self, Option.some.inj htext⟩

/-- **The columns of nodes in order tell what each of them is reported with.**  The columns of a
    node end where the id of another one comes. -/
theorem map_held_eq_of_columns {patterns others : List Pattern}
    (hnames : ∀ pattern ∈ patterns, IsName pattern.name)
    (hnames' : ∀ other ∈ others, IsName other.name)
    (h : patterns.flatMap columns = others.flatMap columns) :
    patterns.map held = others.map held := by
  induction patterns generalizing others with
  | nil =>
      cases others with
      | nil => rfl
      | cons other others => simp [columns_eq_cons] at h
  | cons pattern patterns ih =>
      cases others with
      | nil => simp [columns_eq_cons] at h
      | cons other others =>
          obtain ⟨hname, hnames⟩ := List.forall_mem_cons.mp hnames
          obtain ⟨hname', hnames'⟩ := List.forall_mem_cons.mp hnames'
          rw [List.flatMap_cons, List.flatMap_cons, columns_eq_cons, columns_eq_cons] at h
          obtain ⟨hid, hrest⟩ := List.cons.inj h
          obtain ⟨htail, hrests⟩ := parts_eq (not_isIdColumn_of_mem_tail hname)
            (not_isIdColumn_of_mem_tail hname')
            (fun text htext => not_not.mpr (isIdColumn_of_head? hnames text htext))
            (fun text htext => not_not.mpr (isIdColumn_of_head? hnames' text htext)) hrest
          have hids : pattern.column .id = other.column .id := hid
          have heq : pattern.name = other.name := (column_injective hname hname' hids).1
          rw [← column_congr heq] at htail
          have hheld : pattern.held = other.held := congrArg (Column.id :: ·)
            (List.map_injective_iff.mpr (column_injective_left hname) htail)
          rw [List.map_cons, List.map_cons, hheld, ih hnames hnames' hrests]

end Pattern

/-! ## From the patterns to the tree -/

namespace Request

mutual

/-- The part of a request that can be told from its query. -/
def queried : Request → Request
  | ⟨pattern, children⟩ => ⟨pattern.queried, queriedBelow children⟩
termination_by structural request => request

/-- The part of several trees that can be told from a query. -/
def queriedBelow : List Request → List Request
  | [] => []
  | request :: requests => queried request :: queriedBelow requests
termination_by structural requests => requests

end

/-- The names of the nodes of several trees. -/
def namesOf (requests : List Request) : List String :=
  (patternsOf requests).map Pattern.name

lemma namesOf_cons (pattern : Pattern) (children requests : List Request) :
    namesOf (⟨pattern, children⟩ :: requests)
      = pattern.name :: (namesOf children ++ namesOf requests) := by
  simp [namesOf, patternsOf_cons, patterns]

/-- What can be told of the patterns of several trees, in the order of the text. -/
def outlineOf (requests : List Request) : List Pattern :=
  (patternsOf requests).map Pattern.queried

lemma outlineOf_cons (pattern : Pattern) (children requests : List Request) :
    outlineOf (⟨pattern, children⟩ :: requests)
      = pattern.queried :: (outlineOf children ++ outlineOf requests) := by
  simp [outlineOf, patternsOf_cons, patterns]

/-- That trees hang on a node and are linked inside, and that no name is taken twice. -/
structure NamedBelow (parent : String) (requests : List Request) : Prop where
  below : LinkedBelow parent requests
  names : (parent :: namesOf requests).Nodup

/-- That the patterns after some trees do not go on with them: the first one hangs on none of the
    names in them. -/
def EndsBelow (names : List String) (rest : List Pattern) : Prop :=
  ∀ pattern, rest.head? = some pattern → ∀ name ∈ names, pattern.parent ≠ some name

lemma EndsBelow.mono {names fewer : List String} {rest : List Pattern} (h : EndsBelow names rest)
    (hsub : fewer ⊆ names) : EndsBelow fewer rest :=
  fun pattern hhead name hname => h pattern hhead name (hsub hname)

section

variable {parent : String} {pattern : Pattern} {children requests : List Request}

lemma NamedBelow.inside (h : NamedBelow parent (⟨pattern, children⟩ :: requests)) :
    NamedBelow pattern.name children := by
  obtain ⟨⟨-, hlinked⟩, hnames⟩ := h
  rw [nodesOf_cons, List.forall_mem_append, nodes_eq, List.forall_mem_cons] at hlinked
  rw [namesOf_cons] at hnames
  refine ⟨⟨hlinked.1.1, hlinked.1.2⟩, hnames.of_cons.sublist ?_⟩
  exact (List.sublist_append_left _ _).cons_cons _

lemma NamedBelow.beside (h : NamedBelow parent (⟨pattern, children⟩ :: requests)) :
    NamedBelow parent requests := by
  obtain ⟨⟨hhang, hlinked⟩, hnames⟩ := h
  rw [nodesOf_cons, List.forall_mem_append] at hlinked
  rw [namesOf_cons] at hnames
  refine ⟨⟨(List.forall_mem_cons.mp hhang).2, hlinked.2⟩, hnames.sublist ?_⟩
  exact ((List.sublist_append_right _ _).cons _).cons_cons _

/-- After the children of a node come trees that hang on its parent, or none. -/
lemma NamedBelow.endsBelow (h : NamedBelow parent (⟨pattern, children⟩ :: requests))
    {rest : List Pattern}
    (hrest : EndsBelow (parent :: namesOf (⟨pattern, children⟩ :: requests)) rest) :
    EndsBelow (pattern.name :: namesOf children) (outlineOf requests ++ rest) := by
  rw [namesOf_cons] at hrest
  cases requests with
  | nil =>
      refine hrest.mono (List.subset_cons_of_subset _ (List.cons_subset_cons _ ?_))
      exact List.subset_append_left _ _
  | cons request requests =>
      have hparent := (h.beside.below.hang request List.mem_cons_self).parent
      have hnew := (List.nodup_cons.mp h.names).1
      obtain ⟨other, below⟩ := request
      rw [namesOf_cons] at hnew
      intro next hnext name hname heq
      rw [outlineOf_cons] at hnext
      obtain rfl := Option.some.inj hnext
      obtain rfl : parent = name := Option.some.inj (hparent.symm.trans heq)
      exact hnew (List.mem_append_left (namesOf _) hname)

end

/-- **Trees are told by their patterns in order**, in front of what does not go on with them. -/
theorem queriedBelow_eq_of_outlineOf : ∀ (requests others : List Request) (parent : String)
    (rest rest' : List Pattern), NamedBelow parent requests → NamedBelow parent others →
      EndsBelow (parent :: namesOf requests) rest → EndsBelow (parent :: namesOf others) rest' →
        outlineOf requests ++ rest = outlineOf others ++ rest' →
          queriedBelow requests = queriedBelow others ∧ rest = rest'
  | [], [] => fun _ _ _ _ _ _ _ h => ⟨rfl, h⟩
  | [], ⟨pattern, children⟩ :: others => by
      intro parent rest rest' _ hothers hrest _ h
      have hparent := (hothers.below.hang _ List.mem_cons_self).parent
      rw [outlineOf_cons] at h
      exact absurd hparent (hrest _ (congrArg List.head? h) parent List.mem_cons_self)
  | ⟨pattern, children⟩ :: requests, [] => by
      intro parent rest rest' hrequests _ _ hrest' h
      have hparent := (hrequests.below.hang _ List.mem_cons_self).parent
      rw [outlineOf_cons] at h
      exact absurd hparent (hrest' _ (congrArg List.head? h).symm parent List.mem_cons_self)
  | ⟨pattern, children⟩ :: requests, ⟨pattern', children'⟩ :: others => by
      intro parent rest rest' hrequests hothers hrest hrest' h
      rw [outlineOf_cons, outlineOf_cons] at h
      simp only [List.cons_append, List.cons.injEq, List.append_assoc] at h
      obtain ⟨hpattern, hafter⟩ := h
      have hname : pattern'.name = pattern.name := (congrArg Pattern.name hpattern).symm
      have hends' := hothers.endsBelow hrest'
      have hchildren' := hothers.inside
      rw [hname] at hends' hchildren'
      obtain ⟨hbelow, hrests⟩ := queriedBelow_eq_of_outlineOf children children' pattern.name _ _
        hrequests.inside hchildren' (hrequests.endsBelow hrest) hends' hafter
      have hfewer : ∀ (request : Request) requests,
          parent :: namesOf requests ⊆ parent :: namesOf (request :: requests) := by
        intro request requests
        rw [namesOf, namesOf, patternsOf_cons]
        exact List.cons_subset_cons _ (List.map_subset _ (List.subset_append_right _ _))
      obtain ⟨hbeside, rfl⟩ := queriedBelow_eq_of_outlineOf requests others parent rest rest'
        hrequests.beside hothers.beside (hrest.mono (hfewer _ _)) (hrest'.mono (hfewer _ _))
        hrests
      rw [queriedBelow, queriedBelow, queried, queried, hpattern, hbelow, hbeside]
      exact ⟨rfl, rfl⟩
termination_by requests => sizes requests
decreasing_by all_goals simp only [sizes, size]; omega

/-! ## From the text to the tree -/

mutual

lemma clauses_queried (parent : Option String) : ∀ request : Request,
    request.queried.clauses parent = request.clauses parent
  | ⟨pattern, children⟩ => by
      rw [queried, clauses, clauses]
      exact congrArg _ (clausesBelow_queriedBelow pattern.name children)
termination_by structural request => request

lemma clausesBelow_queriedBelow (parent : String) : ∀ requests : List Request,
    clausesBelow parent (queriedBelow requests) = clausesBelow parent requests
  | [] => rfl
  | request :: requests => by
      rw [queriedBelow, clausesBelow, clausesBelow, clauses_queried (some parent) request,
        clausesBelow_queriedBelow parent requests]
termination_by structural requests => requests

end

mutual

lemma returnItems_queried : ∀ request : Request,
    request.queried.returnItems = request.returnItems
  | ⟨pattern, children⟩ => by
      rw [queried, returnItems, returnItems, returnItemsOf_queriedBelow children]
      rfl
termination_by structural request => request

lemma returnItemsOf_queriedBelow : ∀ requests : List Request,
    returnItemsOf (queriedBelow requests) = returnItemsOf requests
  | [] => rfl
  | request :: requests => by
      rw [queriedBelow, returnItemsOf, returnItemsOf, returnItems_queried request,
        returnItemsOf_queriedBelow requests]
termination_by structural requests => requests

end

lemma queryText_queried (request : Request) : request.queried.queryText = request.queryText := by
  rw [queryText, queryText, clauses_queried, returnItems_queried]

/-- What the two clauses tell is put together pattern by pattern. -/
lemma map_queried_eq (patterns : List Pattern) :
    patterns.map Pattern.queried = List.zipWith Pattern.reporting (patterns.map Pattern.matched)
      (patterns.map Pattern.held) := by
  rw [List.zipWith_map, List.zipWith_self]
  exact List.map_congr_left fun pattern _ => pattern.queried_eq

lemma WellFormed.namedBelow {request : Request} (h : request.WellFormed) :
    NamedBelow request.pattern.name request.children where
  below := ⟨h.linked request (mem_nodes_self request), fun node hnode =>
    h.linked node (mem_nodes.mpr (Or.inr hnode))⟩
  names := by
    have hnames := h.names
    rw [nodes_eq, List.map_cons] at hnames
    simpa [namesOf, patternsOf, Function.comp_def] using hnames

/-- **A well-formed tree is told by its patterns in order.** -/
theorem queried_eq_of_patterns {request other : Request} (hwell : request.WellFormed)
    (hwell' : other.WellFormed)
    (h : request.patterns.map Pattern.queried = other.patterns.map Pattern.queried) :
    request.queried = other.queried := by
  obtain ⟨pattern, children⟩ := request
  obtain ⟨pattern', children'⟩ := other
  obtain ⟨hroot, hbelow⟩ := List.cons.inj h
  have hname : pattern'.name = pattern.name := (congrArg Pattern.name hroot).symm
  have hnamed' : NamedBelow pattern.name children' := hname ▸ hwell'.namedBelow
  have houtline : outlineOf children ++ [] = outlineOf children' ++ [] := by
    rw [List.append_nil, List.append_nil]
    exact hbelow
  obtain ⟨hchildren, -⟩ := queriedBelow_eq_of_outlineOf children children' pattern.name [] []
    hwell.namedBelow hnamed' nofun nofun houtline
  rw [queried, queried, hroot, hchildren]

/-- **The query text determines the request**, apart from the directive that no query shows. -/
theorem queryText_eq_iff {request other : Request} (haccepted : request.Accepted)
    (haccepted' : other.Accepted) (hclear : request.Clear) (hclear' : other.Clear) :
    request.queryText = other.queryText ↔ request.queried = other.queried := by
  refine ⟨fun h => ?_, fun h => ?_⟩
  · have hwell := haccepted.wellFormed
    have hwell' := haccepted'.wellFormed
    have hmatched := map_matched_eq_of_queryText hwell hwell' hclear hclear' h
    have hcolumns : request.patterns.flatMap Pattern.columns
        = other.patterns.flatMap Pattern.columns := by
      rw [patterns_eq, patterns_eq, List.flatMap_map, List.flatMap_map]
      exact (reportedColumns_queryText hwell.lexical).symm.trans
        ((congrArg reportedColumns h).trans (reportedColumns_queryText hwell'.lexical))
    have hheld := Pattern.map_held_eq_of_columns
      (forall_mem_patterns.mpr fun node hnode => (hwell.lexical node hnode).name)
      (forall_mem_patterns.mpr fun node hnode => (hwell'.lexical node hnode).name) hcolumns
    refine queried_eq_of_patterns hwell hwell' ?_
    rw [map_queried_eq, map_queried_eq, hmatched, hheld]
  · rw [← queryText_queried request, h, queryText_queried]

/-- A gene with its traits is accepted whether or not the edges to the traits are asked for, and
    though its texts look like parts of a query. -/
lemma ofText_gene_with_odd_texts (edges : Bool) :
    (ofText ("Gene(q: \"](a:b)\") \x7b name, Trait(relationship: \":has'\nreturn x\") as t \x7b "
        ++ (if edges then "relationships, " else "") ++ "p \x7d \x7d")).2
      = .ok ⟨⟨"Gene", "Gene", [⟨"q", .string "](a:b)"⟩], none, false, false, false, ["name"], none⟩,
        [⟨⟨"Trait", "t", [], some ":has'\nreturn x", false, edges, false, ["p"], some "Gene"⟩,
          []⟩]⟩ := by
  have htokens : Token.ofText
      ("Gene(q: \"](a:b)\") \x7b name, Trait(relationship: \":has'\nreturn x\") as t \x7b "
        ++ (if edges then "relationships, " else "") ++ "p \x7d \x7d")
      = [.ident "Gene", .punctuation .leftParen, .ident "q", .punctuation .colon, .string "](a:b)",
        .punctuation .rightParen, .punctuation .leftBrace, .ident "name", .punctuation .comma,
        .ident "Trait", .punctuation .leftParen, .ident "relationship", .punctuation .colon,
        .string ":has'\nreturn x", .punctuation .rightParen, .ident "as", .ident "t",
        .punctuation .leftBrace]
        ++ (if edges then [.ident "relationships", .punctuation .comma] else [])
        ++ [.ident "p", .punctuation .rightBrace, .punctuation .rightBrace] := by
    cases edges <;> decide +kernel
  rw [ofText, htokens]
  cases edges <;> rfl

/-- The two have the same query text, and all but that directive can be told from it. -/
theorem queryText_eq_gene_with_odd_texts :
    ∃ request other : Request, request.Accepted ∧ other.Accepted ∧ request.Clear ∧ other.Clear
      ∧ request ≠ other ∧ request.queryText = other.queryText
      ∧ request.queried = other.queried := by
  have hclear : ∀ edges,
      Clear ⟨⟨"Gene", "Gene", [⟨"q", .string "](a:b)"⟩], none, false, false, false, ["name"], none⟩,
        [⟨⟨"Trait", "t", [], some ":has'\nreturn x", false, edges, false, ["p"], some "Gene"⟩,
          []⟩]⟩ := by
    intro edges
    have hfilter : Value.Clear (.string "](a:b)") := by
      rw [Value.Clear]
      decide
    refine List.forall_mem_cons.mpr ⟨⟨List.forall_mem_singleton.mpr hfilter, nofun⟩,
      List.forall_mem_singleton.mpr ⟨nofun, ?_⟩⟩
    rintro edge ⟨⟩
    decide
  have haccepted : ∀ edges, Accepted _ := fun edges => ⟨_, ofText_gene_with_odd_texts edges⟩
  have htext := (queryText_eq_iff (haccepted true) (haccepted false) (hclear true)
    (hclear false)).mpr rfl
  exact ⟨_, _, haccepted true, haccepted false, hclear true, hclear false, by simp, htext, rfl⟩

end Request

end GraphRequest
