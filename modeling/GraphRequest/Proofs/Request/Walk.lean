import GraphRequest.Proofs.Request.Registration

/-!
# The walk goes through the nodes in order

A walk keeps the visits it has still to make and puts the children of a node in front of them.  A
tree, on the other hand, has its nodes in an order of its own: each before its children, and one
child with all that is below it before the next.  The two are the same.

* `Request.visits` — the visits to the nodes of a tree in that order, by recursion on the tree.
* `Request.walkFrom_eq` — pending visits are made one after the other, each with all that is below
  it.  What is pending behind a visit makes no difference to what comes before.
* `Request.walk_eq`, `Request.map_node_walk` — so a walk makes the visits to the nodes in order.
-/

namespace GraphRequest

namespace Request

mutual

/-- The visits to the nodes of a tree that is met at some depth, each node before its children. -/
def visits (depth : ℕ) : Request → List Visit
  | ⟨pattern, children⟩ => ⟨depth, ⟨pattern, children⟩⟩ :: visitsOf (depth + 1) children
termination_by structural request => request

/-- The visits to the nodes of several trees beside one another. -/
def visitsOf (depth : ℕ) : List Request → List Visit
  | [] => []
  | request :: requests => request.visits depth ++ visitsOf depth requests
termination_by structural requests => requests

end

lemma visits_eq (depth : ℕ) (request : Request) :
    request.visits depth = ⟨depth, request⟩ :: visitsOf (depth + 1) request.children := by
  cases request
  rfl

lemma visitsOf_eq_flatMap (depth : ℕ) (requests : List Request) :
    visitsOf depth requests = requests.flatMap (visits depth) := by
  induction requests with
  | nil => rfl
  | cons request requests ih => rw [visitsOf, ih, List.flatMap_cons]

/-- Pending visits are made one after the other, each with all that is below it. -/
theorem walkFrom_eq (pending : List Visit) :
    walkFrom pending = pending.flatMap fun visit => visit.node.visits visit.depth := by
  induction pending using walkFrom.induct with
  | case1 => simp [walkFrom]
  | case2 visit pending ih =>
      have hchildren : visit.children.flatMap (fun child => child.node.visits child.depth)
          = visitsOf (visit.depth + 1) visit.node.children := by
        rw [visitsOf_eq_flatMap, Visit.children, List.flatMap_map]
      rw [walkFrom, ih, List.flatMap_append, hchildren, List.flatMap_cons, visits_eq,
        List.cons_append]

/-- A walk makes the visits to the nodes of the tree in order, the first of them at depth 0. -/
theorem walk_eq (request : Request) : request.walk = request.visits 0 := by
  rw [walk, walkFrom_eq, List.flatMap_singleton]

mutual

lemma map_node_visits (depth : ℕ) : ∀ request : Request,
    (request.visits depth).map Visit.node = request.nodes
  | ⟨pattern, children⟩ => by
      rw [visits, nodes, List.map_cons, map_node_visitsOf (depth + 1) children]
termination_by structural request => request

lemma map_node_visitsOf (depth : ℕ) : ∀ requests : List Request,
    (visitsOf depth requests).map Visit.node = nodesOf requests
  | [] => rfl
  | request :: requests => by
      rw [visitsOf, nodesOf, List.map_append, map_node_visits depth request,
        map_node_visitsOf depth requests]
termination_by structural requests => requests

end

/-- A walk comes to every node of the tree once, in order. -/
theorem map_node_walk (request : Request) : request.walk.map Visit.node = request.nodes := by
  rw [walk_eq, map_node_visits]

lemma node_mem_of_mem_walk {request : Request} {visit : Visit} (h : visit ∈ request.walk) :
    visit.node ∈ request.nodes := by
  rw [← map_node_walk]
  exact List.mem_map_of_mem h

section

variable {α : Type} (request : Request)

/-- What is told of every visit of a walk is told of the nodes in order. -/
lemma map_walk (f : Request → α) :
    (request.walk.map fun visit => f visit.node) = request.nodes.map f := by
  rw [← map_node_walk, List.map_map]
  rfl

lemma flatMap_walk (f : Request → List α) :
    (request.walk.flatMap fun visit => f visit.node) = request.nodes.flatMap f := by
  rw [← map_node_walk, List.flatMap_map]

end

end Request

end GraphRequest
