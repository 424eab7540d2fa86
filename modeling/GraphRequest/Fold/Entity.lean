import GraphRequest.Json.Printer
import GraphRequest.Request

/-!
# Folding rows into entities

A result row is one path through the request for every branch at once, so an entity shows up in
as many rows as there are combinations below and beside it.  Folding undoes that: row by row, each
node's entity is looked up by its id, created if it is new, and the children are folded into the
scopes **inside** it.  The same id under two parents is two entities.

A row that has no id for a node has nothing for the whole subtree; the other branches of the row
count all the same.  What an entity reports is taken from the row that created it, except for the
edges it was reached by, which are collected from all its rows.

* `absorb` — what one row does to a scope;
* `fold` — what all rows make of an empty one.
-/

namespace GraphRequest

/-- What was gathered about an entity. -/
structure Entity where
  /-- The reported properties. -/
  fields : Record
  /-- The labels, if they are reported. -/
  labels : Option Json
  /-- The different edges to the parent it was reached by, in the order they were met. -/
  edges : List Json
  /-- The entity as a whole, if it is reported. -/
  graph : Option Json
  /-- For each child node the entities found below this one, under the texts of their ids. -/
  branches : List (List (String × Entity))

/-- The entities of one node below one parent, under the texts of their ids. -/
abbrev Scope := Entries Entity

/-- Whether a row has an id for a node; if so, the id. -/
def Pattern.identity? (pattern : Pattern) (row : Row) : Option Json :=
  row.present? pattern.idColumn

/-- The edge a row reached a node by.  A root has none, and without the directive none is
    collected. -/
def Pattern.collectedEdge? (pattern : Pattern) (row : Row) : Option Json :=
  if pattern.relationships && !pattern.isRoot then row.present? pattern.edgeColumn else none

/-- Adds an edge unless an equal one is there. -/
def Json.addNew (edges : List Json) (edge : Json) : List Json :=
  if edges.any fun known => known.agrees edge then edges else edges ++ [edge]

/-- The reported properties of a node in a row; a column that is missing holds `null`. -/
def Pattern.fieldsIn (pattern : Pattern) (row : Row) : Record :=
  Entries.insertAll [] <| pattern.fields.map fun field =>
    (field, (row.lookup (pattern.fieldColumn field)).getD .null)

namespace Entity

/-- A new entity, as the row that has it first describes it.  Labels that are missing are an empty
    list. -/
def ofRow (request : Request) (row : Row) : Entity where
  fields := request.pattern.fieldsIn row
  labels :=
    if request.pattern.labels then
      some ((row.lookup request.pattern.labelsColumn).getD (.array []))
    else none
  edges := []
  graph :=
    if request.pattern.graph then some ((row.lookup request.pattern.graphColumn).getD .null)
    else none
  branches := request.children.map fun _ => []

/-- Adds the edge by which a row reached an entity of the given pattern. -/
def addEdge (entity : Entity) (pattern : Pattern) (row : Row) : Entity :=
  match pattern.collectedEdge? row with
  | none => entity
  | some edge => { entity with edges := Json.addNew entity.edges edge }

end Entity

namespace Request

mutual

/-- Takes a row into the scope of a node.  Without an id the scope stays as it is. -/
def absorb (row : Row) : Request → Scope → Scope
  | ⟨pattern, children⟩, scope =>
    match pattern.identity? row with
    | none => scope
    | some id =>
      scope.upsert id.compact fun known =>
        let entity := (known.getD (Entity.ofRow ⟨pattern, children⟩ row)).addEdge pattern row
        { entity with branches := absorbBelow row children entity.branches }
termination_by structural request => request

/-- Takes a row into the scopes of the children of an entity. -/
def absorbBelow (row : Row) : List Request → List Scope → List Scope
  | child :: children, scope :: scopes =>
    absorb row child scope :: absorbBelow row children scopes
  | _, scopes => scopes
termination_by structural children => children

end

variable (request : Request)

/-- The entities of the root in all rows. -/
def fold (rows : List Row) : Scope :=
  rows.foldl (fun scope row => request.absorb row scope) []

end Request

end GraphRequest
