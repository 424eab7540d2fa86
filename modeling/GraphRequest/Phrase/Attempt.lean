/-!
# Attempts to read a phrase

When a text is no request, the answer names the farthest place that was reached and the rules that
could have gone on from there.  To say so, reading keeps a record of every rule it **attempted**:
where, whether it passed, and which attempts were made on the way.  An attempt made on a branch
that was given up later stays in the record.

The record has no say in what is read; it is a by-product.
-/

namespace GraphRequest

/-- The rules a diagnosis can name. -/
inductive Rule where
  | endOfInput
  | ident
  | bound
  | number
  | string
  | param
  | params
  | nodeAlias
  | labels
  | relationships
  | graph
  | field
  | properties
  | body
  | node
deriving DecidableEq

namespace Rule

/-- The rules in the order in which a diagnosis lists them. -/
def all : List Rule :=
  [.endOfInput, .ident, .bound, .number, .string, .param, .params, .nodeAlias, .labels,
    .relationships, .graph, .field, .properties, .body, .node]

/-- The name of a rule in a diagnosis. -/
def name : Rule → String
  | .endOfInput => "EOI"
  | .ident => "ident"
  | .bound => "bound"
  | .number => "number"
  | .string => "string"
  | .param => "param"
  | .params => "params"
  | .nodeAlias => "alias"
  | .labels => "labels"
  | .relationships => "relationships"
  | .graph => "graph"
  | .field => "field"
  | .properties => "properties"
  | .body => "body"
  | .node => "node"

/-- No rule is left out of the list of all rules. -/
theorem mem_all (rule : Rule) : rule ∈ all := by
  cases rule <;> decide

end Rule

/-- A place in the tokens of a text: in front of the last `ahead` tokens, or one character
    further, after the opening bracket of a bound name. -/
structure Place where
  ahead : Nat
  inside : Bool
deriving DecidableEq

/-- Whether a place lies farther on than another. -/
def Place.beyond (place other : Place) : Bool :=
  place.ahead < other.ahead || (place.ahead == other.ahead && place.inside && !other.inside)

/-- An attempt to read a rule at a place.  `stop` tells how many tokens were left after it if it
    passed; `inner` are the attempts made on the way, in order. -/
inductive Attempt where
  | mk (rule : Rule) (place : Place) (stop : Option Nat) (inner : List Attempt)

end GraphRequest
