import GraphRequest.Phrase
import GraphRequest.Request

/-!
# What a request asks for

A written node says what it asks for in any order and partly in blocks.  `Request.ofPhrase` gathers
it: a directive is set if it stands anywhere in the body, and the fields and children of the body
and of its blocks follow one another as they were written.

The parameter `relationship` of a node that has a parent is no filter.  It is the edge the node
hangs on, and of several the last one counts.
-/

namespace GraphRequest

namespace Phrase

/-- The key of the parameter that gives the edge to the parent. -/
def edgeKey : String := "relationship"

/-- The fields named by items. -/
def itemFields : List Item → List String
  | [] => []
  | .field name :: items => name :: itemFields items
  | .node _ :: items => itemFields items

/-- The fields named in a body. -/
def entryFields : List Entry → List String
  | [] => []
  | .directive _ :: entries => entryFields entries
  | .item item :: entries => itemFields [item] ++ entryFields entries
  | .properties items :: entries => itemFields items ++ entryFields entries

/-- Whether a directive stands in a body. -/
def sets (directive : Directive) : List Entry → Bool
  | [] => false
  | .directive other :: entries => other == directive || sets directive entries
  | _ :: entries => sets directive entries

end Phrase

open Phrase

/-- The pattern of a node: its own part of what is asked for. -/
def Pattern.ofPhrase (parent : Option String) (typeName : String) (params : List Parameter)
    (nodeAlias : Option String) (entries : List Entry) : Pattern :=
  let isEdge (param : Parameter) : Bool := parent.isSome && param.key == edgeKey
  { typeName
    name := nodeAlias.getD typeName
    filters := params.filter fun param => !isEdge param
    edge := (params.filter isEdge).getLast?.map fun param => param.value.raw
    labels := sets .labels entries
    relationships := sets .relationships entries
    graph := sets .graph entries
    fields := entryFields entries
    parent }

namespace Request

mutual

/-- What a node below `parent` asks for. -/
def ofPhrase (parent : Option String) : Phrase.Node → Request
  | .mk typeName params nodeAlias entries =>
    { pattern := Pattern.ofPhrase parent typeName params nodeAlias entries
      children := ofEntries (nodeAlias.getD typeName) entries }
termination_by structural node => node

/-- The child nodes among items. -/
def ofItems (parent : String) : List Phrase.Item → List Request
  | [] => []
  | item :: items => ofItem parent item ++ ofItems parent items
termination_by structural items => items

/-- The child node an item is, if it is one. -/
def ofItem (parent : String) : Phrase.Item → List Request
  | .field _ => []
  | .node node => [ofPhrase (some parent) node]
termination_by structural item => item

/-- The child nodes in a body. -/
def ofEntries (parent : String) : List Phrase.Entry → List Request
  | [] => []
  | entry :: entries => ofEntry parent entry ++ ofEntries parent entries
termination_by structural entries => entries

/-- The child nodes in an entry. -/
def ofEntry (parent : String) : Phrase.Entry → List Request
  | .directive _ => []
  | .item item => ofItem parent item
  | .properties items => ofItems parent items
termination_by structural entry => entry

end

end Request

end GraphRequest
