import GraphRequest.Proofs.Request.Scope

/-!
# The variable an edge is bound to

An edge is asked for under a variable named after the node below it, and what the request says of
the edge follows at once: `[__tr:has]`.  A query language reads a variable as far as it goes, so
the variable that is bound ends where the text of the edge stops going on with it.  An edge that
begins with a mark, as `:has` does, leaves the variable as it is.  One that begins with a letter, a
digit or an underscore is taken to be part of it, and then the variable in the return clause, which
is also the column that rows are folded by, is bound to nothing.

* `boundEdge` — the variable that is bound in a clause, as a reader finds it.
* `Request.boundEdge_clause` — it is the edge's column and what goes on with it; so it is the column
  itself exactly if the edge does not go on with a name.

Nothing is demanded of an edge but that there is one (`Request.boundEdge_of_gene_has_traits`).
-/

namespace GraphRequest

/-- The variable bound by the edge of a clause: the letters, digits and underscores that follow the
    first bracket. -/
def boundEdge (clause : String) : String :=
  String.ofList ((clause.toList.dropWhile (· != '[')).tail.takeWhile isNameChar)

/-- The part of a text by which a name in front of it would be longer. -/
def leadingName (text : String) : String :=
  String.ofList (text.toList.takeWhile isNameChar)

lemma leadingName_eq_empty_iff {text : String} : leadingName text = "" ↔ NameEnds text.toList := by
  rw [leadingName, NameEnds, ← String.toList_inj, String.toList_ofList]
  cases text.toList <;> simp [List.takeWhile_cons]

namespace Pattern

variable {pattern : Pattern}

/-- What is bound in the clause of a pattern is its column and what goes on with it. -/
lemma boundEdge_storedClause {parent edge : String} (hname : IsName pattern.name)
    (hparent : pattern.parent = some parent) (habove : IsName parent)
    (hedge : pattern.edge = some edge) :
    boundEdge pattern.storedClause = pattern.edgeColumn ++ leadingName edge := by
  rw [boundEdge, dropWhile_storedClause hparent habove hedge, List.tail_cons,
    List.takeWhile_append_of_pos (isNameChar_of_mem_edgeColumn hname),
    takeWhile_isNameChar_append _ _ (by decide), String.ofList_append, String.ofList_toList,
    leadingName]

end Pattern

namespace Request

/-- **What the edge of a node is bound to.**  In the clause of any node but the root this is the
    node's edge column, gone on with by the name that the text of the edge begins with.  So it is
    the column that the return clause lists and that edges are collected from exactly if the edge
    does not go on with a name. -/
theorem boundEdge_clause {request : Request} (h : request.Accepted) {i : ℕ} {node : Request}
    (hnode : request.nodes[i]? = some node) (hbelow : node.pattern.isRoot = false) :
    ∃ clause edge, (request.clauses none)[i]? = some clause ∧ node.pattern.edge = some edge
      ∧ boundEdge clause = node.pattern.edgeColumn ++ leadingName edge
      ∧ (boundEdge clause = node.pattern.edgeColumn ↔ NameEnds edge.toList)
      ∧ node.pattern.edgeColumn ∈ reportedColumns request.queryText
      ∧ ∀ row, node.pattern.collectedEdge? row
          = if node.pattern.relationships then row.present? node.pattern.edgeColumn else none := by
  have hwell := h.wellFormed
  have hmem := List.mem_of_getElem? hnode
  rcases hwell.hung node hmem with ⟨hroot, -⟩ | ⟨parent, edge, hparent, habove, hedge⟩
  · simp [Pattern.isRoot, hroot] at hbelow
  have hclause : (request.clauses none)[i]? = some node.pattern.storedClause := by
    rw [clauses_eq_map_nodes hwell, List.getElem?_map, hnode, Option.map_some]
  have hbound := Pattern.boundEdge_storedClause (hwell.lexical node hmem).name hparent habove hedge
  have hlisted : node.pattern.edgeColumn ∈ reportedColumns request.queryText := by
    rw [reportedColumns_queryText hwell.lexical]
    exact pattern_subset_columns hmem (Pattern.edge_mem_columns hbelow)
  refine ⟨_, edge, hclause, hedge, hbound, ?_, hlisted, fun row => ?_⟩
  · rw [hbound, ← leadingName_eq_empty_iff, String.append_eq_left_iff]
  · simp [Pattern.collectedEdge?, hbelow]

/-- The edge `:has` leaves the variable of the edge to the traits as it is. -/
theorem boundEdge_gene_with_traits :
    ∃ request : Request, request.Accepted
      ∧ ∃ clause, (request.clauses none)[1]? = some clause
        ∧ clause = "optional match(Gene)<-[__tr:has]->(t:Trait)" ∧ boundEdge clause = "__tr"
        ∧ "__tr" ∈ reportedColumns request.queryText := by
  have haccepted : Accepted ⟨⟨"Gene", "Gene", [], none, false, false, false, ["name"], none⟩,
      [⟨⟨"Trait", "t", [], some ":has", false, true, false, ["p"], some "Gene"⟩, []⟩]⟩ :=
    ⟨_, ofText_gene_with_traits⟩
  obtain ⟨clause, edge, hclause, hedge, -, hbound, hlisted, -⟩ :=
    boundEdge_clause haccepted (i := 1) rfl rfl
  obtain rfl := Option.some.inj hedge
  obtain rfl := Option.some.inj hclause
  exact ⟨_, haccepted, _, rfl, by decide +kernel, hbound.mpr (by simp; decide), hlisted⟩

/-- Without the colon it is taken for a part of the variable: `__trhas` is bound, and `__tr` is
    returned. -/
theorem boundEdge_of_gene_has_traits :
    ∃ request : Request,
      (ofText "Gene() \x7b Trait(relationship: \"has\") as t \x7b p \x7d \x7d").2 = .ok request
      ∧ ∃ node, request.nodes[1]? = some node ∧ node.pattern.isRoot = false
        ∧ ∃ clause, (request.clauses none)[1]? = some clause
          ∧ boundEdge clause = "__trhas" ∧ node.pattern.edgeColumn = "__tr"
          ∧ boundEdge clause ≠ node.pattern.edgeColumn
          ∧ "__tr" ∈ request.returnItems ∧ "__trhas" ∉ request.returnItems := by
  have htokens : Token.ofText "Gene() \x7b Trait(relationship: \"has\") as t \x7b p \x7d \x7d"
      = [.ident "Gene", .punctuation .leftParen, .punctuation .rightParen, .punctuation .leftBrace,
        .ident "Trait", .punctuation .leftParen, .ident "relationship", .punctuation .colon,
        .string "has", .punctuation .rightParen, .ident "as", .ident "t", .punctuation .leftBrace,
        .ident "p", .punctuation .rightBrace, .punctuation .rightBrace] := by
    decide +kernel
  refine ⟨⟨⟨"Gene", "Gene", [], none, false, false, false, [], none⟩,
    [⟨⟨"Trait", "t", [], some "has", false, false, false, ["p"], some "Gene"⟩, []⟩]⟩, ?_, _, rfl,
    rfl, _, rfl, by decide +kernel, by decide +kernel, by decide +kernel, by decide +kernel,
    by decide +kernel⟩
  rw [ofText, htokens]
  rfl

end Request

end GraphRequest
