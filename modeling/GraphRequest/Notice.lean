/-!
# Notices

What is noted down on the way: each node as it is registered, the query once it is compiled, each
row that was skipped, and how many entities came out.
-/

namespace GraphRequest

/-- How much a notice matters. -/
inductive Level where
  | info
  | debug
  | trace
deriving DecidableEq

/-- The name of a level. -/
def Level.name : Level → String
  | .info => "INFO"
  | .debug => "DEBUG"
  | .trace => "TRACE"

/-- Something noted down. -/
inductive Notice where
  | registered (typeName name : String)
  | compiled (nodes : Nat) (root : String)
  | queryText (text : String)
  | skipped (row : Nat) (column : String)
  | reduced (rows roots : Nat)
deriving DecidableEq

namespace Notice

/-- The level of a notice. -/
def level : Notice → Level
  | .registered .. => .trace
  | .compiled .. => .info
  | .queryText .. => .debug
  | .skipped .. => .debug
  | .reduced .. => .debug

/-- The message of a notice. -/
def message : Notice → String
  | .registered typeName name => "node " ++ typeName ++ " registered as " ++ name
  | .compiled nodes root =>
    "compiled request with " ++ nodes.repr ++ " nodes rooted at " ++ root
  | .queryText text => "query text:\n" ++ text
  | .skipped row column => "row " ++ row.repr ++ " has no " ++ column ++ ", skipped"
  | .reduced rows roots => "reduced " ++ rows.repr ++ " rows into " ++ roots.repr ++ " roots"

end Notice

end GraphRequest
