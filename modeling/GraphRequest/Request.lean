import GraphRequest.Pattern

/-!
# Request trees

A request is a tree of entity patterns.  `Request.walk` visits it depth first, a node before its
children, with a list of the visits still to be made; `Request.outline` shows it a line a visit,
indented by depth.

* `Request.size` — the number of nodes, which also bounds the walk: a visit takes a node off the
  pending ones and puts its children there.
-/

namespace GraphRequest

/-- A tree of entity patterns. -/
structure Request where
  pattern : Pattern
  children : List Request

namespace Request

/-- The tree of a lone pattern. -/
def leaf (pattern : Pattern) : Request :=
  ⟨pattern, []⟩

mutual

/-- The number of nodes. -/
def size : Request → Nat
  | ⟨_, children⟩ => sizes children + 1
termination_by structural request => request

/-- The number of nodes of several trees. -/
def sizes : List Request → Nat
  | [] => 0
  | request :: requests => request.size + sizes requests
termination_by structural requests => requests

end

/-- A node met on a walk and its depth below the start. -/
structure Visit where
  depth : Nat
  node : Request

/-- The visits to the children, one level deeper. -/
def Visit.children (visit : Visit) : List Visit :=
  visit.node.children.map fun child => ⟨visit.depth + 1, child⟩

/-- The number of nodes below pending visits, those visited included. -/
def pendingSize (pending : List Visit) : Nat :=
  sizes (pending.map Visit.node)

/-- Trees beside one another have together as many nodes as each of them. -/
theorem sizes_append (before after : List Request) :
    sizes (before ++ after) = sizes before + sizes after := by
  induction before with
  | nil => simp [sizes]
  | cons request requests ih => simp [sizes, ih, Nat.add_assoc]

/-- A visit leaves fewer nodes pending than there were. -/
theorem pendingSize_children_append (visit : Visit) (pending : List Visit) :
    pendingSize (visit.children ++ pending) + 1 = pendingSize (visit :: pending) := by
  obtain ⟨depth, ⟨pattern, children⟩⟩ := visit
  have hmap : (children.map fun child => (⟨depth + 1, child⟩ : Visit)).map Visit.node
      = children := by
    rw [List.map_map]
    exact List.map_id children
  simp only [pendingSize, Visit.children, List.map_append, List.map_cons, sizes_append, sizes,
    size, hmap]
  omega

/-- Makes the pending visits in order, those to the children of a node right after the node. -/
def walkFrom : List Visit → List Visit
  | [] => []
  | visit :: pending => visit :: walkFrom (visit.children ++ pending)
termination_by pending => pendingSize pending
decreasing_by
  have := pendingSize_children_append visit pending
  omega

variable (request : Request)

/-- All nodes, depth first and each before its children. -/
def walk : List Visit :=
  walkFrom [⟨0, request⟩]

/-- The descendant reached by a path of child numbers. -/
def descendant? (request : Request) : List Nat → Option Request
  | [] => some request
  | number :: path => request.children[number]?.bind (descendant? · path)

/-- The line of a node in an outline: its alias and type, the edge it hangs on, its directives and
    its fields. -/
def Visit.line (visit : Visit) : String :=
  let pattern := visit.node.pattern
  let flag (directive : Directive) :=
    if pattern.asksFor directive then " +" ++ directive.word else ""
  String.ofList (List.replicate (2 * visit.depth) ' ') ++ pattern.name ++ ":" ++ pattern.typeName
    ++ (match pattern.edge with
      | none => ""
      | some edge => " [" ++ edge ++ "]")
    ++ flag .labels ++ flag .relationships ++ flag .graph
    ++ " (" ++ ", ".intercalate pattern.fields ++ ")\n"

/-- The outline of a request, a line per node. -/
def outline : String :=
  String.join (request.walk.map Visit.line)

end Request

end GraphRequest
