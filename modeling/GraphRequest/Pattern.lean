import GraphRequest.Value

/-!
# Entity patterns

A node of a request describes one kind of entity: which entities are wanted, how they hang on the
node above, and what is reported of them.  A pattern is such a node without its children.

The columns of the result are named after the name of the node alone.  Generated names begin with
two underscores and end in what the column holds; a field's column has a point, which no name has.
-/

namespace GraphRequest

/-- One entity pattern. -/
structure Pattern where
  typeName : String
  /-- What the node goes by: its alias, or its type if it was given none. -/
  name : String
  /-- The properties an entity must have. -/
  filters : List Parameter
  /-- The text that follows the edge variable in the edge to the parent. -/
  edge : Option String
  /-- Whether the labels are reported. -/
  labels : Bool
  /-- Whether the edges to the parent are reported. -/
  relationships : Bool
  /-- Whether the entity is reported as a whole. -/
  graph : Bool
  /-- The properties that are reported, in order. -/
  fields : List String
  /-- The name of the node above. -/
  parent : Option String
deriving DecidableEq

namespace Pattern

/-- A pattern that asks for nothing; it is called like its type unless an alias is given. -/
def bare (typeName : String) (nodeAlias : Option String) : Pattern where
  typeName := typeName
  name := nodeAlias.getD typeName
  filters := []
  edge := none
  labels := false
  relationships := false
  graph := false
  fields := []
  parent := none

variable (pattern : Pattern)

/-- Whether no node stands above. -/
def isRoot : Bool :=
  pattern.parent.isNone

/-- Whether a directive is set. -/
def asksFor : Directive → Bool
  | .labels => pattern.labels
  | .relationships => pattern.relationships
  | .graph => pattern.graph

/-- The column that holds the id. -/
def idColumn : String :=
  "__" ++ pattern.name ++ "id"

/-- The variable made for the edge to the parent, which is also its column. -/
def edgeColumn : String :=
  "__" ++ pattern.name ++ "r"

/-- The column that holds the labels. -/
def labelsColumn : String :=
  "__" ++ pattern.name ++ "labels"

/-- The column that holds the entity as a whole. -/
def graphColumn : String :=
  "__" ++ pattern.name ++ "graph"

/-- The column that holds a field. -/
def fieldColumn (field : String) : String :=
  pattern.name ++ "." ++ field

end Pattern

end GraphRequest
