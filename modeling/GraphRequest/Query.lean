import GraphRequest.Fold.Record
import GraphRequest.Notice
import GraphRequest.Request.QueryText
import GraphRequest.Request.Registration

/-!
# Queries

A query is an accepted request together with the text it compiles to.  Making one from a text and
reducing rows with it both leave notices.  A refused request leaves the notices of the nodes
registered before the fault, and nothing about a query.
-/

namespace GraphRequest

/-- A request and the query text it compiles to. -/
structure Query where
  tree : Request
  text : String

namespace Query

/-- Compiles an accepted request. -/
def ofRequest (tree : Request) : Query :=
  ⟨tree, tree.queryText⟩

/-- The notices of compiling a request. -/
def notices (query : Query) : List Notice :=
  [.compiled query.tree.walk.length query.tree.pattern.name, .queryText query.text]

/-- Reads and compiles a request, with the notices that leaves. -/
def ofText (text : String) : List Notice × Except Fault Query :=
  let (seen, outcome) := Request.ofText text
  let registered := seen.map fun pattern => Notice.registered pattern.typeName pattern.name
  match outcome with
  | .error fault => (registered, .error fault)
  | .ok tree =>
    let query := ofRequest tree
    (registered ++ query.notices, .ok query)

/-- Reads and compiles a request. -/
def ofText? (text : String) : Except Fault Query :=
  (ofText text).2

end Query

/-- The notices of reducing rows: one for each row without a root, then the totals. -/
def Request.reductionNotices (request : Request) (rows : List Row) : List Notice :=
  let skipped := rows.zipIdx.filterMap fun (row, number) =>
    match request.pattern.identity? row with
    | some _ => none
    | none => some (Notice.skipped number request.pattern.idColumn)
  skipped ++ [.reduced rows.length (request.fold rows).length]

end GraphRequest
