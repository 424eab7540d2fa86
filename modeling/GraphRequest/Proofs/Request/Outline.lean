import GraphRequest.Proofs.Request.Legibility
import GraphRequest.Proofs.Request.Walk

/-!
# The outline determines the request

An outline has a line for every node, and shows by blanks alone what is below what.  Nothing in a
line is escaped: an edge may go on, behind a bracket that seems to close it, with what looks like
directives and a list of fields.  As long as no edge has a line break, an outline can be read.

* **One line** — its depth, name and type are read from the left.  Fields have no parenthesis and
  directives no bracket, so the rest is read from the right: the fields begin at the last opening
  parenthesis, and the edge ends at the last closing bracket before it (`Visit.told_eq_of_content`).
* **The tree** — the children of a node end where a line is no deeper than it.  So a tree is told by
  the patterns and the depths on its walk (`Request.mapPatterns_eq_iff`).
* **The parents** — they are not in the outline, but every node hangs on the one above it
  (`Request.hang_outlined`).

What is not told are the filters: `Request.outline_eq_iff`.
-/

namespace GraphRequest

/-! ## What is told of a pattern -/

namespace Pattern

variable (pattern : Pattern)

/-- What a line of an outline says of a pattern. -/
def outlined : Pattern :=
  { pattern with filters := [], parent := none }

/-- A pattern without its filters. -/
def unfiltered : Pattern :=
  { pattern with filters := [] }

/-- The edge as a line shows it. -/
def bracketedEdge : String :=
  match pattern.edge with
  | none => ""
  | some edge => " [" ++ edge ++ "]"

/-- Directives as a line shows them, by whether they are set. -/
def flagText (labels relationships graph : Bool) : String :=
  (if labels then " +labels" else "") ++ (if relationships then " +relationships" else "")
    ++ (if graph then " +graph" else "")

/-- The directives as a line shows them. -/
def flags : String :=
  flagText pattern.labels pattern.relationships pattern.graph

/-- A line behind its blanks, up to the fields. -/
def leadText : List Char :=
  pattern.name.toList ++ ':' :: (pattern.typeName.toList
    ++ (pattern.bracketedEdge.toList ++ (pattern.flags.toList ++ [' '])))

/-- The fields as a line shows them, with the parenthesis that closes them. -/
def fieldsText : List Char :=
  [',', ' '].intercalate (pattern.fields.map String.toList) ++ [')']

end Pattern

/-! ## One line -/

namespace Pattern

variable {pattern other : Pattern}

lemma flagText_subset : ∀ labels relationships graph,
    (flagText labels relationships graph).toList ⊆ " +labels +relationships +graph".toList := by
  decide

lemma flagText_injective : ∀ labels relationships graph labels' relationships' graph',
    flagText labels relationships graph = flagText labels' relationships' graph' →
      labels = labels' ∧ relationships = relationships' ∧ graph = graph' := by
  decide +kernel

/-- Directives are written with letters, plus signs and blanks. -/
lemma not_mem_flags {c : Char} (hc : c ∉ " +labels +relationships +graph".toList)
    (pattern : Pattern) : c ∉ pattern.flags.toList ++ [' '] := by
  intro hmem
  rcases List.mem_append.mp hmem with hflags | hblank
  · exact hc (flagText_subset _ _ _ hflags)
  · obtain rfl := List.mem_singleton.mp hblank
    exact hc (by decide)

/-- **The end of an edge can be found**: it is the last closing bracket in front of the
    directives. -/
lemma eq_of_bracketedEdge
    (h : pattern.bracketedEdge.toList ++ (pattern.flags.toList ++ [' '])
      = other.bracketedEdge.toList ++ (other.flags.toList ++ [' '])) :
    pattern.edge = other.edge ∧ pattern.flags = other.flags := by
  have hopens : ∀ {pattern other : Pattern} {edge : String},
      (" [" ++ edge ++ "]").toList ++ (pattern.flags.toList ++ [' '])
        ≠ "".toList ++ (other.flags.toList ++ [' ']) := by
    intro pattern other edge heq
    refine not_mem_flags (c := '[') (by decide) other ?_
    rw [String.toList_empty, List.nil_append] at heq
    rw [← heq]
    simp
  rw [bracketedEdge, bracketedEdge] at h
  cases hedge : pattern.edge with
  | none =>
      cases hother : other.edge with
      | none =>
          rw [hedge, hother] at h
          exact ⟨rfl, String.toList_inj.mp (by simpa using h)⟩
      | some edge =>
          rw [hedge, hother] at h
          exact absurd h.symm hopens
  | some edge =>
      cases hother : other.edge with
      | none =>
          rw [hedge, hother] at h
          exact absurd h hopens
      | some edge' =>
          have hparts : (' ' :: '[' :: edge.toList) ++ ']' :: (pattern.flags.toList ++ [' '])
              = (' ' :: '[' :: edge'.toList) ++ ']' :: (other.flags.toList ++ [' ']) := by
            simpa [hedge, hother] using h
          obtain ⟨hedges, hflags⟩ := parts_eq_at_last (not_mem_flags (by decide) pattern)
            (not_mem_flags (by decide) other) hparts
          obtain rfl : edge = edge' := String.toList_inj.mp (by simpa using hedges)
          exact ⟨rfl, String.toList_inj.mp (by simpa using hflags)⟩

lemma nameEnds_bracketedEdge (pattern : Pattern) : NameEnds pattern.bracketedEdge.toList := by
  rw [bracketedEdge]
  cases pattern.edge with
  | none => exact nofun
  | some edge =>
      rw [String.toList_append, String.toList_append]
      exact nameEnds_cons.mpr (by decide)

lemma nameEnds_flags (pattern : Pattern) : NameEnds (pattern.flags.toList ++ [' ']) := by
  have hall : ∀ labels relationships graph,
      ((flagText labels relationships graph).toList ++ [' ']).head? = some ' ' := by
    decide
  intro c hc
  rw [flags, hall] at hc
  obtain rfl := Option.some.inj hc
  decide

/-- Fields are told by their text, as they are names. -/
lemma fields_eq_of_fieldsText (hlexical : pattern.Lexical)
    (hlexical' : other.Lexical) (h : pattern.fieldsText = other.fieldsText) :
    pattern.fields = other.fields := by
  have hcloses : ∀ {field : String} {fields : List String}, IsName field →
      [',', ' '].intercalate ((field :: fields).map String.toList) ++ [')']
        ≠ [',', ' '].intercalate (([] : List String).map String.toList) ++ [')'] := by
    intro field fields hname heq
    obtain ⟨c, cs, hcs, hc, -⟩ := hname
    rw [List.map_cons, intercalate_cons, hcs] at heq
    obtain rfl : c = ')' := (List.cons.inj heq).1
    exact absurd hc (by decide)
  rw [fieldsText, fieldsText] at h
  cases hfields : pattern.fields with
  | nil =>
      cases hothers : other.fields with
      | nil => rfl
      | cons field' fields' =>
          rw [hfields, hothers] at h
          have hname := hlexical'.fields field' (hothers ▸ List.mem_cons_self)
          exact absurd h.symm (hcloses hname)
  | cons field fields =>
      cases hothers : other.fields with
      | nil =>
          rw [hfields, hothers] at h
          have hname := hlexical.fields field (hfields ▸ List.mem_cons_self)
          exact absurd h (hcloses hname)
      | cons field' fields' =>
          rw [hfields, hothers] at h
          have hparts := (legible_name.intercalate [' '] (by decide) (List.cons_ne_nil field fields)
            (List.cons_ne_nil field' fields') (hfields ▸ hlexical.fields)
            (hothers ▸ hlexical'.fields) (closes_cons (by decide) (by decide) [])
            (closes_cons (by decide) (by decide) []) h).1
          rwa [List.map_id, List.map_id] at hparts

/-- What is no part of a name and no punctuation between fields is not found among them. -/
lemma not_mem_fieldsText (hlexical : pattern.Lexical) {c : Char} (hname : isNameChar c = false)
    (hc : c ∉ [',', ' ', ')']) : c ∉ pattern.fieldsText := by
  have hfields : ∀ text ∈ pattern.fields.map String.toList, c ∉ text := by
    intro text htext hmem
    obtain ⟨field, hfield, rfl⟩ := List.mem_map.mp htext
    exact absurd ((hlexical.fields field hfield).all _ hmem) (by simp [hname])
  rw [fieldsText, List.mem_append, not_or]
  exact ⟨not_mem_intercalate (fun h => hc (List.mem_append_left [')'] h)) hfields,
    fun h => hc (List.mem_append_right [',', ' '] h)⟩

/-- A line break in front of the fields can only be one in the edge. -/
lemma newline_not_mem_leadText (hlexical : pattern.Lexical)
    (hedge : ∀ edge, pattern.edge = some edge → '\n' ∉ edge.toList) :
    '\n' ∉ pattern.leadText := by
  have hname : '\n' ∉ pattern.name.toList := fun h =>
    absurd (hlexical.name.all _ h) (by decide)
  have htype : '\n' ∉ pattern.typeName.toList := fun h =>
    absurd (hlexical.typeName.all _ h) (by decide)
  have hbracketed : '\n' ∉ pattern.bracketedEdge.toList := by
    rw [bracketedEdge]
    cases h : pattern.edge with
    | none => exact nofun
    | some edge => simpa using hedge edge h
  have hflags := not_mem_flags (c := '\n') (by decide) pattern
  simp only [leadText, List.mem_append, List.mem_cons, not_or] at hflags ⊢
  exact ⟨hname, by decide, htype, hbracketed, hflags⟩

lemma ne_blank_of_head? (hlexical : pattern.Lexical) (rest : List Char) :
    ∀ c, (pattern.leadText ++ rest).head? = some c → c ≠ ' ' := by
  obtain ⟨d, ds, hds, hd, -⟩ := hlexical.name
  rw [leadText, hds]
  rintro c hc rfl
  obtain rfl := Option.some.inj hc
  exact absurd hd (by decide)

/-- Up to the fields, a line says everything but what it goes under. -/
lemma eq_of_leadText (hlexical : pattern.Lexical) (hlexical' : other.Lexical)
    (h : pattern.leadText = other.leadText) :
    pattern.name = other.name ∧ pattern.typeName = other.typeName
      ∧ pattern.edge = other.edge ∧ pattern.flags = other.flags := by
  have hends : ∀ pattern : Pattern,
      NameEnds (pattern.bracketedEdge.toList ++ (pattern.flags.toList ++ [' '])) :=
    fun pattern => (nameEnds_bracketedEdge pattern).append (nameEnds_flags pattern)
  obtain ⟨hname, htypes⟩ := legible_name hlexical.name hlexical'.name
    (nameEnds_cons.mpr (by decide)) (nameEnds_cons.mpr (by decide)) h
  obtain ⟨htype, hrest⟩ := legible_name hlexical.typeName hlexical'.typeName (hends pattern)
    (hends other) (List.cons.inj htypes).2
  exact ⟨hname, htype, eq_of_bracketedEdge hrest⟩

/-- **A line can be read**: it tells everything about the node but its filters and what it hangs
    on. -/
theorem outlined_eq_of_line (hlexical : pattern.Lexical) (hlexical' : other.Lexical)
    (h : pattern.leadText ++ '(' :: pattern.fieldsText
      = other.leadText ++ '(' :: other.fieldsText) :
    pattern.outlined = other.outlined := by
  obtain ⟨hlead, hfieldsText⟩ :=
    parts_eq_at_last (not_mem_fieldsText hlexical (by decide) (by decide))
      (not_mem_fieldsText hlexical' (by decide) (by decide)) h
  obtain ⟨hname, htype, hedge, hflags⟩ := eq_of_leadText hlexical hlexical' hlead
  obtain ⟨hlabels, hrelationships, hgraph⟩ := flagText_injective _ _ _ _ _ _ hflags
  have hfields := fields_eq_of_fieldsText hlexical hlexical' hfieldsText
  rw [outlined, outlined, hname, htype, hedge, hlabels, hrelationships, hgraph, hfields]

end Pattern

namespace Request.Visit

/-- A line without its line break. -/
def content (visit : Visit) : List Char :=
  List.replicate (2 * visit.depth) ' '
    ++ (visit.node.pattern.leadText ++ '(' :: visit.node.pattern.fieldsText)

lemma line_eq (visit : Visit) :
    visit.line = String.ofList (List.replicate (2 * visit.depth) ' ') ++ visit.node.pattern.name
      ++ ":" ++ visit.node.pattern.typeName ++ visit.node.pattern.bracketedEdge
      ++ (if visit.node.pattern.labels then " +labels" else "")
      ++ (if visit.node.pattern.relationships then " +relationships" else "")
      ++ (if visit.node.pattern.graph then " +graph" else "")
      ++ " (" ++ ", ".intercalate visit.node.pattern.fields ++ ")\n" :=
  rfl

lemma toList_line (visit : Visit) : visit.line.toList = visit.content ++ ['\n'] := by
  rw [line_eq]
  simp [content, Pattern.leadText, Pattern.fieldsText, Pattern.flags, Pattern.flagText,
    String.toList_intercalate]

/-- What is told of a visit: its depth, and something of its pattern. -/
def told (f : Pattern → Pattern) (visit : Visit) : ℕ × Pattern :=
  (visit.depth, f visit.node.pattern)

variable {visit other : Visit}

/-- The first character of a name ends the blanks, so they can be counted. -/
theorem told_eq_of_content (hlexical : visit.node.pattern.Lexical)
    (hlexical' : other.node.pattern.Lexical) (h : visit.content = other.content) :
    visit.told Pattern.outlined = other.told Pattern.outlined := by
  have hblank : ∀ depth, ∀ c ∈ List.replicate (2 * depth) ' ', c = ' ' :=
    fun depth c hc => List.eq_of_mem_replicate hc
  obtain ⟨hblanks, hline⟩ := parts_eq (p := (· = ' ')) (hblank visit.depth) (hblank other.depth)
    (Pattern.ne_blank_of_head? hlexical _) (Pattern.ne_blank_of_head? hlexical' _) h
  have hlengths := congrArg List.length hblanks
  rw [List.length_replicate, List.length_replicate] at hlengths
  have hdepth : visit.depth = other.depth := by omega
  rw [told, told, hdepth, Pattern.outlined_eq_of_line hlexical hlexical' hline]

/-- A line has a line break at its end only, if there is none in the edge. -/
lemma newline_not_mem_content (hlexical : visit.node.pattern.Lexical)
    (hedge : ∀ edge, visit.node.pattern.edge = some edge → '\n' ∉ edge.toList) :
    '\n' ∉ visit.content := by
  have hblanks : '\n' ∉ List.replicate (2 * visit.depth) ' ' := fun h =>
    absurd (List.eq_of_mem_replicate h) (by decide)
  simp only [content, List.mem_append, List.mem_cons, not_or]
  exact ⟨hblanks, Pattern.newline_not_mem_leadText hlexical hedge, by decide,
    Pattern.not_mem_fieldsText hlexical (by decide) (by decide)⟩

end Request.Visit

/-! ## From the lines to the tree -/

namespace Request

lemma visitsOf_cons (depth : ℕ) (pattern : Pattern) (children requests : List Request) :
    visitsOf depth (⟨pattern, children⟩ :: requests)
      = ⟨depth, ⟨pattern, children⟩⟩
        :: (visitsOf (depth + 1) children ++ visitsOf depth requests) := by
  rw [visitsOf, visits, List.cons_append]

section

variable (f : Pattern → Pattern)

mutual

/-- A tree of the same shape with other patterns. -/
def mapPatterns : Request → Request
  | ⟨pattern, children⟩ => ⟨f pattern, mapPatternsBelow children⟩
termination_by structural request => request

/-- Trees of the same shapes with other patterns. -/
def mapPatternsBelow : List Request → List Request
  | [] => []
  | request :: requests => mapPatterns request :: mapPatternsBelow requests
termination_by structural requests => requests

end

/-- What is told of the visits to the nodes of several trees. -/
def toldOf (depth : ℕ) (requests : List Request) : List (ℕ × Pattern) :=
  (visitsOf depth requests).map (Visit.told f)

lemma toldOf_cons (depth : ℕ) (pattern : Pattern) (children requests : List Request) :
    toldOf f depth (⟨pattern, children⟩ :: requests)
      = (depth, f pattern) :: (toldOf f (depth + 1) children ++ toldOf f depth requests) := by
  rw [toldOf, visitsOf_cons, List.map_cons, List.map_append]
  rfl

/-- That what is told next is of a visit higher up, if of any. -/
def EndsAt (depth : ℕ) (rest : List (ℕ × Pattern)) : Prop :=
  ∀ told, rest.head? = some told → told.1 < depth

variable {f}

lemma EndsAt.inside {depth : ℕ} {rest : List (ℕ × Pattern)} (h : EndsAt depth rest)
    (requests : List Request) : EndsAt (depth + 1) (toldOf f depth requests ++ rest) := by
  intro told htold
  cases requests with
  | nil => exact Nat.lt_succ_of_lt (h told htold)
  | cons request requests =>
      obtain ⟨pattern, children⟩ := request
      rw [toldOf_cons] at htold
      obtain rfl := Option.some.inj htold
      exact Nat.lt_succ_self depth

/-- **Trees are told by the depths and patterns on a walk**, in front of what is higher up. -/
theorem mapPatternsBelow_eq_of_toldOf : ∀ (requests others : List Request) (depth : ℕ)
    (rest rest' : List (ℕ × Pattern)), EndsAt depth rest → EndsAt depth rest' →
      toldOf f depth requests ++ rest = toldOf f depth others ++ rest' →
        mapPatternsBelow f requests = mapPatternsBelow f others ∧ rest = rest'
  | [], [] => fun _ _ _ _ _ h => ⟨rfl, h⟩
  | [], ⟨pattern, children⟩ :: others => by
      intro depth rest rest' hrest _ h
      rw [toldOf_cons] at h
      exact absurd (hrest _ (congrArg List.head? h)) (lt_irrefl depth)
  | ⟨pattern, children⟩ :: requests, [] => by
      intro depth rest rest' _ hrest' h
      rw [toldOf_cons] at h
      exact absurd (hrest' _ (congrArg List.head? h).symm) (lt_irrefl depth)
  | ⟨pattern, children⟩ :: requests, ⟨pattern', children'⟩ :: others => by
      intro depth rest rest' hrest hrest' h
      rw [toldOf_cons, toldOf_cons, List.cons_append, List.cons_append, List.append_assoc,
        List.append_assoc] at h
      obtain ⟨hroot, hafter⟩ := List.cons.inj h
      obtain ⟨hbelow, hrests⟩ := mapPatternsBelow_eq_of_toldOf children children' (depth + 1) _ _
        (hrest.inside requests) (hrest'.inside others) hafter
      obtain ⟨hbeside, rfl⟩ :=
        mapPatternsBelow_eq_of_toldOf requests others depth rest rest' hrest hrest' hrests
      have hpattern : f pattern = f pattern' := congrArg Prod.snd hroot
      rw [mapPatternsBelow, mapPatternsBelow, mapPatterns, mapPatterns, hpattern, hbelow, hbeside]
      exact ⟨rfl, rfl⟩
termination_by requests => sizes requests
decreasing_by all_goals simp only [sizes, size]; omega

variable (f)

lemma toldOf_singleton (request : Request) :
    toldOf f 0 [request] = request.walk.map (Visit.told f) := by
  rw [toldOf, visitsOf, visitsOf, List.append_nil, walk_eq]

mutual

lemma told_visits_mapPatterns (depth : ℕ) : ∀ request : Request,
    ((request.mapPatterns f).visits depth).map (Visit.told id)
      = (request.visits depth).map (Visit.told f)
  | ⟨pattern, children⟩ => by
      rw [mapPatterns, visits, visits, List.map_cons, List.map_cons,
        toldOf_mapPatternsBelow (depth + 1) children]
      rfl
termination_by structural request => request

lemma toldOf_mapPatternsBelow (depth : ℕ) : ∀ requests : List Request,
    (visitsOf depth (mapPatternsBelow f requests)).map (Visit.told id)
      = (visitsOf depth requests).map (Visit.told f)
  | [] => rfl
  | request :: requests => by
      rw [mapPatternsBelow, visitsOf, visitsOf, List.map_append, List.map_append,
        told_visits_mapPatterns depth request, toldOf_mapPatternsBelow depth requests]
termination_by structural requests => requests

end

/-- **The depths on a walk tell the shape of the tree**: as far as patterns are told, trees are the
    same exactly if their walks are. -/
theorem mapPatterns_eq_iff {request other : Request} :
    request.mapPatterns f = other.mapPatterns f
      ↔ request.walk.map (Visit.told f) = other.walk.map (Visit.told f) := by
  refine ⟨fun h => ?_, fun h => ?_⟩
  · rw [walk_eq, walk_eq, ← told_visits_mapPatterns, h, told_visits_mapPatterns]
  · have htold : toldOf f 0 [request] ++ [] = toldOf f 0 [other] ++ [] := by
      rw [List.append_nil, List.append_nil, toldOf_singleton, toldOf_singleton, h]
    have hbelow := (mapPatternsBelow_eq_of_toldOf [request] [other] 0 [] [] nofun nofun htold).1
    exact (List.cons.inj hbelow).1

end

/-! ## The parents -/

mutual

/-- A tree with every node hung on the one above it. -/
def hang (parent : Option String) : Request → Request
  | ⟨pattern, children⟩ => ⟨{ pattern with parent := parent }, hangBelow pattern.name children⟩
termination_by structural request => request

/-- Trees hung on a node, with every other node hung on the one above it. -/
def hangBelow (parent : String) : List Request → List Request
  | [] => []
  | request :: requests => request.hang (some parent) :: hangBelow parent requests
termination_by structural requests => requests

end

/-- A tree without its filters. -/
def unfiltered (request : Request) : Request :=
  request.mapPatterns Pattern.unfiltered

mutual

/-- Hanging every node on the one above it restores what linked trees had. -/
lemma hang_outlined : ∀ request : Request, (∀ node ∈ request.nodes, node.Linked) →
    (request.mapPatterns Pattern.outlined).hang request.pattern.parent
      = request.mapPatterns Pattern.unfiltered
  | ⟨pattern, children⟩ => by
      intro hlinked
      rw [nodes_eq, List.forall_mem_cons] at hlinked
      rw [mapPatterns, mapPatterns, hang]
      exact congrArg (Request.mk pattern.unfiltered)
        (hangBelow_outlined children pattern.name ⟨hlinked.1, hlinked.2⟩)
termination_by structural request => request

lemma hangBelow_outlined : ∀ (requests : List Request) (parent : String),
    LinkedBelow parent requests → hangBelow parent (mapPatternsBelow Pattern.outlined requests)
      = mapPatternsBelow Pattern.unfiltered requests
  | [] => fun _ _ => rfl
  | request :: requests => by
      intro parent ⟨hhang, hlinked⟩
      rw [List.forall_mem_cons] at hhang
      rw [nodesOf_cons, List.forall_mem_append] at hlinked
      rw [mapPatternsBelow, mapPatternsBelow, hangBelow, ← hhang.1.parent,
        hang_outlined request hlinked.1, hangBelow_outlined requests parent ⟨hhang.2, hlinked.2⟩]
termination_by structural requests => requests

end

/-! ## From the outline to the tree -/

/-- That no edge has a line break. -/
def OneLined (request : Request) : Prop :=
  ∀ node ∈ request.nodes, ∀ edge, node.pattern.edge = some edge → '\n' ∉ edge.toList

lemma toList_outline (request : Request) :
    request.outline.toList = (request.walk.map Visit.content).flatMap (· ++ ['\n']) := by
  rw [outline, String.toList_join, List.flatMap_map, List.flatMap_map]
  exact List.flatMap_congr fun visit _ => visit.toList_line

/-- Visits are told one by one by their lines. -/
lemma map_told_eq_of_map_content {visits others : List Visit}
    (hlexical : ∀ visit ∈ visits, visit.node.pattern.Lexical)
    (hlexical' : ∀ other ∈ others, other.node.pattern.Lexical)
    (h : visits.map Visit.content = others.map Visit.content) :
    visits.map (Visit.told Pattern.outlined) = others.map (Visit.told Pattern.outlined) := by
  induction visits generalizing others with
  | nil => rw [List.map_eq_nil_iff.mp h.symm]
  | cons visit visits ih =>
      cases others with
      | nil => simp at h
      | cons other others =>
          rw [List.forall_mem_cons] at hlexical hlexical'
          obtain ⟨hfirst, hrest⟩ := List.cons.inj h
          rw [List.map_cons, List.map_cons,
            Visit.told_eq_of_content hlexical.1 hlexical'.1 hfirst,
            ih hlexical.2 hlexical'.2 hrest]

section

variable {request other : Request}

/-- Line breaks part the lines of an outline, and they tell the visits of the walk. -/
lemma map_told_eq_of_outline (hlexical : ∀ node ∈ request.nodes, node.pattern.Lexical)
    (hlexical' : ∀ node ∈ other.nodes, node.pattern.Lexical) (hlined : request.OneLined)
    (hlined' : other.OneLined) (h : request.outline = other.outline) :
    request.walk.map (Visit.told Pattern.outlined)
      = other.walk.map (Visit.told Pattern.outlined) := by
  have hends : ∀ {request : Request}, (∀ node ∈ request.nodes, node.pattern.Lexical) →
      request.OneLined → ∀ line ∈ request.walk.map Visit.content, '\n' ∉ line := by
    intro request hlexical hlined line hline
    obtain ⟨visit, hvisit, rfl⟩ := List.mem_map.mp hline
    have hnode := node_mem_of_mem_walk hvisit
    exact Visit.newline_not_mem_content (hlexical _ hnode) (hlined _ hnode)
  have hlines := congrArg String.toList h
  rw [toList_outline, toList_outline] at hlines
  refine map_told_eq_of_map_content (fun visit hvisit => hlexical _ (node_mem_of_mem_walk hvisit))
    (fun visit hvisit => hlexical' _ (node_mem_of_mem_walk hvisit)) ?_
  exact ended_eq (hends hlexical hlined) (hends hlexical' hlined') hlines

/-- **The outline determines the request**, apart from the filters, if edges have no line breaks. -/
theorem outline_eq_iff (haccepted : request.Accepted) (haccepted' : other.Accepted)
    (hlined : request.OneLined) (hlined' : other.OneLined) :
    request.outline = other.outline ↔ request.unfiltered = other.unfiltered := by
  have hwell := haccepted.wellFormed
  have hwell' := haccepted'.wellFormed
  refine ⟨fun h => ?_, fun h => ?_⟩
  · have htold := map_told_eq_of_outline hwell.lexical hwell'.lexical hlined hlined' h
    have houtlined := (mapPatterns_eq_iff Pattern.outlined).mpr htold
    rw [unfiltered, unfiltered, ← hang_outlined request hwell.linked,
      ← hang_outlined other hwell'.linked, hwell.root_parent, hwell'.root_parent, houtlined]
  · have htold := (mapPatterns_eq_iff Pattern.unfiltered).mp h
    have hlines := congrArg (List.map fun told => (Visit.mk told.1 (leaf told.2)).line) htold
    rw [List.map_map, List.map_map] at hlines
    exact congrArg String.join hlines

end

/-- A gene with its traits is accepted whether or not it is filtered, and though the edge to the
    traits reads on like a line of its own. -/
lemma ofText_gene_with_odd_edge (filtered : Bool) :
    (ofText ((if filtered then "Gene(q: 5)" else "Gene()")
        ++ " \x7b name, Trait(relationship: \":has] +graph (name)\") as t \x7b p \x7d \x7d")).2
      = .ok ⟨⟨"Gene", "Gene", if filtered then [⟨"q", .number "5"⟩] else [], none, false, false,
          false, ["name"], none⟩,
        [⟨⟨"Trait", "t", [], some ":has] +graph (name)", false, false, false, ["p"], some "Gene"⟩,
          []⟩]⟩ := by
  have htokens : Token.ofText ((if filtered then "Gene(q: 5)" else "Gene()")
        ++ " \x7b name, Trait(relationship: \":has] +graph (name)\") as t \x7b p \x7d \x7d")
      = [.ident "Gene", .punctuation .leftParen]
        ++ (if filtered then [.ident "q", .punctuation .colon, .number "5"] else [])
        ++ [.punctuation .rightParen, .punctuation .leftBrace, .ident "name", .punctuation .comma,
          .ident "Trait", .punctuation .leftParen, .ident "relationship", .punctuation .colon,
          .string ":has] +graph (name)", .punctuation .rightParen, .ident "as", .ident "t",
          .punctuation .leftBrace, .ident "p", .punctuation .rightBrace,
          .punctuation .rightBrace] := by
    cases filtered <;> decide +kernel
  rw [ofText, htokens]
  cases filtered <;> rfl

/-- Filtered or not, it has the same outline, and all but the filter can be told from that. -/
theorem outline_eq_gene_with_odd_edge :
    ∃ request other : Request, request.Accepted ∧ other.Accepted ∧ request.OneLined
      ∧ other.OneLined ∧ request ≠ other ∧ request.outline = other.outline
      ∧ request.unfiltered = other.unfiltered := by
  have haccepted : ∀ filtered, Accepted _ := fun filtered => ⟨_, ofText_gene_with_odd_edge filtered⟩
  have hlined : ∀ filters : List Parameter,
      OneLined ⟨⟨"Gene", "Gene", filters, none, false, false, false, ["name"], none⟩,
        [⟨⟨"Trait", "t", [], some ":has] +graph (name)", false, false, false, ["p"], some "Gene"⟩,
          []⟩]⟩ := by
    intro filters
    refine List.forall_mem_cons.mpr ⟨nofun, List.forall_mem_singleton.mpr ?_⟩
    rintro edge ⟨⟩
    decide
  have houtline := (outline_eq_iff (haccepted true) (haccepted false) (hlined _)
    (hlined _)).mpr rfl
  exact ⟨_, _, haccepted true, haccepted false, hlined _, hlined _, by simp, houtline, rfl⟩

end Request

end GraphRequest
