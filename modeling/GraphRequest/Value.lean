/-!
# Parameters and directives

A parameter of a node is bound when the query is executed, or is a literal.  A value has two
texts.  `Value.shown` is the one a filter of the query has, where a string stands between single
quotes.  `Value.raw` is the one spliced into an edge pattern, where it stands for itself.
-/

namespace GraphRequest

/-- The value of a node parameter. -/
inductive Value where
  /-- Written `<name>`; known only when the query runs. -/
  | bound (name : String)
  /-- Digits, kept as they were written. -/
  | number (digits : String)
  /-- Text between double quotes, without them. -/
  | string (text : String)
deriving DecidableEq

namespace Value

/-- The text a bound value has in a query: its name between braces. -/
def placeholder (name : String) : String :=
  "\x7b" ++ name ++ "\x7d"

/-- The text of a value in an edge pattern. -/
def raw : Value → String
  | .bound name => placeholder name
  | .number digits => digits
  | .string text => text

/-- The text of a value in a filter. -/
def shown : Value → String
  | .bound name => placeholder name
  | .number digits => digits
  | .string text => "'" ++ text ++ "'"

end Value

/-- A parameter of a node: what it is called and what it is. -/
structure Parameter where
  key : String
  value : Value
deriving DecidableEq

/-- What a node can ask for beside its fields: the labels of the entity, the relationships that
    lead to it, and the entity as a whole. -/
inductive Directive where
  | labels
  | relationships
  | graph
deriving DecidableEq

/-- The word for a directive, in a request and as a name in a record. -/
def Directive.word : Directive → String
  | .labels => "labels"
  | .relationships => "relationships"
  | .graph => "graph"

end GraphRequest
