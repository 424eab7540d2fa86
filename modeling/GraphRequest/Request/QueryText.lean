import GraphRequest.Request

/-!
# The query text of a request

The query has two clauses.  The pattern clause has one pattern per node in the order of the text:
the starting node is matched outright, every other node optionally, through an edge to the node
above it.  The return clause has, in the same order, the columns each node is reported with.
-/

namespace GraphRequest

namespace Pattern

variable (pattern : Pattern)

/-- The filters between braces; nothing if there are none. -/
def filterText : String :=
  match pattern.filters with
  | [] => ""
  | filters =>
    " \x7b" ++ ", ".intercalate (filters.map fun filter => filter.key ++ ": " ++ filter.value.shown)
      ++ "\x7d"

/-- The entity between parentheses. -/
def entityText : String :=
  "(" ++ pattern.name ++ ":" ++ pattern.typeName ++ pattern.filterText ++ ")"

/-- The text between the brackets of an edge: the edge variable and, right after it, the edge. -/
def edgeText : String :=
  pattern.edgeColumn ++ pattern.edge.getD ""

/-- The pattern as it stands in the pattern clause, below the node called `parent`. -/
def clause : (parent : Option String) → String
  | none => "match" ++ pattern.entityText
  | some parent => "optional match(" ++ parent ++ ")<-[" ++ pattern.edgeText ++ "]->"
      ++ pattern.entityText

/-- The columns a node is reported with, as they stand in the return clause. -/
def returnItems : List String :=
  ["id(" ++ pattern.name ++ ") as " ++ pattern.idColumn]
    ++ pattern.fields.map pattern.fieldColumn
    ++ (if pattern.labels then ["labels(" ++ pattern.name ++ ") as " ++ pattern.labelsColumn]
        else [])
    ++ (if pattern.graph then [pattern.name ++ " as " ++ pattern.graphColumn] else [])
    ++ (if pattern.isRoot then [] else [pattern.edgeColumn])

end Pattern

namespace Request

mutual

/-- The patterns of a tree that hangs below the node called `parent`. -/
def clauses (parent : Option String) : Request → List String
  | ⟨pattern, children⟩ => pattern.clause parent :: clausesBelow pattern.name children
termination_by structural request => request

/-- The patterns of the trees below a node. -/
def clausesBelow (parent : String) : List Request → List String
  | [] => []
  | request :: requests => clauses (some parent) request ++ clausesBelow parent requests
termination_by structural requests => requests

end

mutual

/-- The return items of a tree. -/
def returnItems : Request → List String
  | ⟨pattern, children⟩ => pattern.returnItems ++ returnItemsOf children
termination_by structural request => request

/-- The return items of several trees. -/
def returnItemsOf : List Request → List String
  | [] => []
  | request :: requests => returnItems request ++ returnItemsOf requests
termination_by structural requests => requests

end

/-- The query text of a tree whose root is the starting node, whatever stands above it. -/
def queryText (request : Request) : String :=
  " ".intercalate (request.clauses none) ++ "\nreturn " ++ ", ".intercalate request.returnItems

end Request

end GraphRequest
