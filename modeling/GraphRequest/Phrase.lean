import GraphRequest.Value

/-!
# Phrases of a request

A request text is one node: a type name, parameters, perhaps an alias, and a body of entries.  The
phrases keep everything a reader of the text could tell apart, blanks and optional commas aside:
the order of entries, which items stand in a `properties` block, and whether an alias was written
out.  What the request asks for is settled later, from the phrases alone.
-/

namespace GraphRequest.Phrase

mutual

/-- One node as it is written. -/
inductive Node where
  | mk (typeName : String) (params : List Parameter) (nodeAlias : Option String)
      (entries : List Entry)

/-- What may stand in a `properties` block: the name of a field, or a child node. -/
inductive Item where
  | field (name : String)
  | node (node : Node)

/-- What may stand in the body of a node. -/
inductive Entry where
  | directive (directive : Directive)
  | item (item : Item)
  | properties (items : List Item)

end

end GraphRequest.Phrase
