import GraphRequest.Fault
import GraphRequest.Request.OfPhrase

/-!
# Registering the nodes of a request

A request that was read may still be refused.  Its nodes are registered in the order of the text:
a node is taken in once it hangs on an edge and its alias is free, then its children are
registered, and only then it is seen whether it reports anything.  The first fault ends it all,
but the nodes registered until then are known, because each of them is reported as it is taken in.

* `Request.register` — registration of a tree, given the nodes registered before it;
* `Request.ofText` — reading and registration of a whole text.
-/

namespace GraphRequest

/-- Whether a node hangs on nothing although it should: below another node an edge is needed, and
    an edge is never empty. -/
def Pattern.lacksEdge (pattern : Pattern) : Bool :=
  match pattern.edge with
  | none => !pattern.isRoot
  | some edge => edge.isEmpty

namespace Request

mutual

/-- Registers the nodes of a tree after those `seen` before.  Gives all nodes registered, and the
    fault that ended it, if there was one. -/
def register (seen : List Pattern) : Request → List Pattern × Option Fault
  | ⟨pattern, children⟩ =>
    if pattern.lacksEdge then (seen, some (.missingRelationship pattern.typeName))
    else if seen.any fun other => other.name == pattern.name then
      (seen, some (.duplicateAlias pattern.typeName))
    else match registerAll (seen ++ [pattern]) children with
      | (known, some fault) => (known, some fault)
      | (known, none) =>
        if pattern.fields.isEmpty && children.isEmpty then
          (known, some (.noFields pattern.typeName))
        else (known, none)
termination_by structural request => request

/-- Registers the nodes of several trees, one tree after the other. -/
def registerAll (seen : List Pattern) : List Request → List Pattern × Option Fault
  | [] => (seen, none)
  | request :: requests =>
    match register seen request with
    | (known, some fault) => (known, some fault)
    | (known, none) => registerAll known requests
termination_by structural requests => requests

end

/-- Reads a request.  Gives the nodes registered in order, all of them if the request is
    accepted. -/
def ofText (text : String) : List Pattern × Except Fault Request :=
  let reading := Phrase.request (Token.ofText text)
  match reading.value with
  | none => ([], .error (.malformed (Diagnosis.ofAttempts text reading.tried)))
  | some (node, _) =>
    let request := ofPhrase none node
    match request.register [] with
    | (seen, some fault) => (seen, .error fault)
    | (seen, none) => (seen, .ok request)

end Request

end GraphRequest
