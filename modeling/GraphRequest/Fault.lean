import GraphRequest.Diagnosis

/-!
# Why a request is refused

A text that is no request is refused with a diagnosis.  A request that can be read is refused when
a node other than the root hangs on nothing, when two nodes share an alias, or when a node reports
nothing.  The type of the node at fault is named in each case.
-/

namespace GraphRequest

/-- A reason to refuse a request. -/
inductive Fault where
  /-- The text is no request. -/
  | malformed (diagnosis : Diagnosis)
  /-- A node below another has no edge to it. -/
  | missingRelationship (typeName : String)
  /-- The alias of a node is taken. -/
  | duplicateAlias (typeName : String)
  /-- A node has neither fields nor children. -/
  | noFields (typeName : String)
deriving DecidableEq

/-- The message for a fault. -/
def Fault.message : Fault → String
  | .malformed diagnosis => diagnosis.message
  | .missingRelationship typeName => "missing relationship parameter for " ++ typeName
  | .duplicateAlias typeName => "duplicate " ++ typeName ++ " please use as to alias"
  | .noFields _ => "no fields specified"

end GraphRequest
