import GraphRequest.CommandLine.Run
import GraphRequest.Proofs.Fold.Consistency
import GraphRequest.Proofs.Fold.Flattening
import GraphRequest.Proofs.Json.Reading

/-!
# Rows that were read

Rows come as a JSON text.  The reader keeps one member under each name, so that a value that was
read agrees with itself, and what has been proved of such rows holds of all rows that the command
line is given.

* `CommandLine.rowsOf_eq_ok_iff` — which texts are read as rows.
* `CommandLine.namesApart_of_rowsOf` — no object in them has a name twice.
* `CommandLine.reduce_append_of_rowsOf` — a row that was read can come again, and all of them can,
  and it makes no difference.
* **`CommandLine.output_reduce_twice`** — hence the same text is printed for rows that are written
  twice.
* **`CommandLine.output_reduce_flatten`** — and for the rows of a forest its report is printed.
-/

namespace GraphRequest.CommandLine

/-! ## Reading rows -/

lemma mapM_row?_eq_some_iff {items : List Json} {rows : List Row} :
    items.mapM row? = some rows ↔ items = rows.map Json.object := by
  induction items generalizing rows with
  | nil => cases rows <;> simp
  | cons item items ih =>
      cases rows with
      | nil => cases item <;> simp [row?, Option.bind_eq_some_iff]
      | cons row rows => cases item <;> simp [row?, Option.bind_eq_some_iff, ih, and_comm]

/-- The texts that are read as rows are those of an array of objects. -/
lemma rowsOf_eq_ok_iff {source text : String} {rows : List Row} :
    rowsOf source text = .ok rows
      ↔ Json.parse? Json.nestingLimit text = some (.array (rows.map Json.object)) := by
  rw [rowsOf]
  split
  · rename_i hparse
    simp [hparse]
  · rename_i items hparse
    rw [hparse, Option.some.injEq, Json.array.injEq, ← mapM_row?_eq_some_iff]
    split <;> simp [*]
  · rename_i hparse
    simp_all

/-- No object in rows that were read has a name twice. -/
lemma namesApart_of_rowsOf {source text : String} {rows : List Row}
    (hrows : rowsOf source text = .ok rows) : ∀ row ∈ rows, (Json.object row).NamesApart := by
  have hitems := Json.itemsApart_iff.mp (Json.namesApart_of_parse? (rowsOf_eq_ok_iff.mp hrows))
  exact fun row hrow => hitems _ (List.mem_map_of_mem hrow)

/-! ## Rows that come again -/

variable {request : Request} {source text : String} {rows : List Row}

/-- **Rows that were read can come again.**  A row with the ids and edges of one of them can be left
    out behind them, wherever it comes from, and the rows all over again change nothing. -/
theorem reduce_append_of_rowsOf (haccepted : request.Accepted)
    (hrows : rowsOf source text = .ok rows) :
    (∀ row, ∀ other ∈ rows, request.SameLinks row other → ∀ more,
        request.reduce (rows ++ [row] ++ more) = request.reduce (rows ++ more))
      ∧ request.reduce (rows ++ rows) = request.reduce rows := by
  have hnodup := haccepted.wellFormed.nodup_nodes
  have hread := namesApart_of_rowsOf hrows
  refine ⟨fun row other hother hsame more => ?_, Request.reduce_append_self hnodup hread⟩
  have hseen : request.Seen rows row := hsame.seen hother (Or.inr (hread other hother))
  exact hseen.reduce_append hnodup more

/-- The edges of an entity that was gathered from rows that were read are all different. -/
theorem pairwise_edges_of_rowsOf (hrows : rowsOf source text = .ok rows) {key : String}
    {entity : Entity} (hentity : (key, entity) ∈ request.fold rows) :
    entity.edges.Pairwise fun edge other =>
      edge.agrees other = false ∧ other.agrees edge = false :=
  Request.pairwise_edges_of_mem_fold hentity (namesApart_of_rowsOf hrows)

/-! ## What is printed -/

/-- The query of a source has a request that was accepted. -/
lemma accepted_of_queryOf {query : Query} (h : queryOf source text = .ok query) :
    query.tree.Accepted := by
  refine ⟨text, ?_⟩
  rw [queryOf, Query.ofText?, Query.ofText] at h
  rcases htree : Request.ofText text with ⟨seen, outcome⟩
  cases outcome with
  | error fault => simp [htree] at h
  | ok tree =>
      simp only [htree, Except.ok.injEq] at h
      rw [← h]
      rfl

variable {sources : String → Except ReadFault ByteArray} {pretty : Bool}

/-- Where sources are known, a step of a command goes on with what it found or fails at once. -/
lemma bind_of_known {α β : Type} {found : Except Failure α} {step : α → ExceptT Failure Id β}
    {known : α → Except Failure β} (h : ∀ a, step a = known a) :
    (ExceptT.mk found >>= step : ExceptT Failure Id β) = (found >>= known : Except Failure β) := by
  cases found with
  | error failure => rfl
  | ok a => exact h a

/-- What is printed for rows, if the request is accepted and the rows can be read. -/
lemma output_reduce (rowSource : String) :
    Command.output (m := Id) sources (.reduce source rowSource pretty)
      = (do
          let request ← decode (sources source)
          let query ← queryOf source request
          let text ← decode (sources rowSource)
          let rows ← rowsOf rowSource text
          return recordsText (query.tree.reduce rows) pretty ++ "\n" : Except Failure String) := by
  simp only [Command.output, loadQuery, bind_assoc]
  exact bind_of_known fun request => bind_of_known fun query => bind_of_known fun text =>
    bind_of_known fun rows => rfl

/-- **Rows that are written twice.**  If one source has rows and another one has them twice, the
    same is printed for both, or the request is refused for both. -/
theorem output_reduce_twice {once twice again : String} (honce : decode (sources once) = .ok text)
    (hrows : rowsOf once text = .ok rows) (htwice : decode (sources twice) = .ok again)
    (hrows' : rowsOf twice again = .ok (rows ++ rows)) :
    Command.output (m := Id) sources (.reduce source twice pretty)
      = Command.output (m := Id) sources (.reduce source once pretty) := by
  rw [output_reduce, output_reduce]
  refine bind_congr fun request => ?_
  cases hquery : queryOf source request with
  | error failure => rfl
  | ok query =>
      have hreduce := (reduce_append_of_rowsOf (accepted_of_queryOf hquery) hrows).2
      simp only [honce, hrows, htwice, hrows', hreduce, bind, Except.bind]

/-- **Rows of a forest.**  If the rows of a source are those of a forest of the shape of the request,
    what is printed is the forest, entity by entity. -/
theorem output_reduce_flatten {requestText rowSource : String} {query : Query}
    {forest : List Match} (hrequest : decode (sources source) = .ok requestText)
    (hquery : queryOf source requestText = .ok query)
    (htext : decode (sources rowSource) = .ok text)
    (hrows : rowsOf rowSource text = .ok (query.tree.flatten forest))
    (hfits : query.tree.FitAll forest) :
    Command.output (m := Id) sources (.reduce source rowSource pretty)
      = pure (recordsText (forest.map query.tree.report) pretty ++ "\n") := by
  have hreduce : query.tree.reduce (query.tree.flatten forest) = forest.map query.tree.report := by
    rw [Request.reduce]
    exact (accepted_of_queryOf hquery).wellFormed.records_fold_flatten hfits
  rw [output_reduce]
  simp only [hrequest, hquery, htext, hrows, hreduce, bind, Except.bind]
  rfl

end GraphRequest.CommandLine
