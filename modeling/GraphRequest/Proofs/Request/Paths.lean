import GraphRequest.Proofs.Request.Walk
import Mathlib.Data.List.Forall2

/-!
# Where a walk comes by

`Request.walkFrom` knows only the visits it has still to make.  The pending siblings of all levels
are mixed in them, and nothing tells which of them belongs where.  All the same a walk is made of
the walks of the children: the root comes first, and then one child after the other is walked
through to its end, one level deeper.

Two nodes of a request may be equal trees, so a node is told by the path of child numbers that leads
to it, and its distance from the start is the length of this path.

* `Request.length_walkFrom` — pending visits end after as many visits as there are nodes below them.
* `Request.walk_eq_cons` — a walk from the walks of the children.
* `Request.paths` — the paths to all nodes.  `Request.mem_paths` says that none is missing and
  `Request.pairwise_paths` that they are in the order of a dictionary, so that none comes twice.
* `Request.forall₂_paths_walk` — the visits of a walk are made at these paths, one at each, and the
  depth of a visit is the length of its path.
* `Request.walk_descendant_infix` — the walk of a descendant is a part of the whole walk.
* **`Request.walk_preorder`** — all this in one statement.
-/

namespace GraphRequest

namespace Request

/-- A visit as it is made from a start that stands some levels further up. -/
def Visit.lowered (levels : ℕ) (visit : Visit) : Visit :=
  ⟨visit.depth + levels, visit.node⟩

lemma Visit.lowered_comp_lowered (levels more : ℕ) :
    Visit.lowered more ∘ Visit.lowered levels = Visit.lowered (levels + more) := by
  funext visit
  rw [Function.comp_apply, Visit.lowered, Visit.lowered, Visit.lowered, Nat.add_assoc]

/-! ## A walk from the walks of the children -/

/-- **A walk ends** after as many visits as there are nodes below the pending ones: each visit
    leaves one node less. -/
theorem length_walkFrom (pending : List Visit) :
    (walkFrom pending).length = pendingSize pending := by
  induction pending using walkFrom.induct with
  | case1 => simp [walkFrom, pendingSize, sizes]
  | case2 visit pending ih =>
      rw [walkFrom, List.length_cons, ih, pendingSize_children_append]

/-- A walk makes as many visits as there are nodes. -/
lemma length_walk (request : Request) : request.walk.length = request.size := by
  rw [walk, length_walkFrom]
  simp [pendingSize, sizes]

mutual

/-- What is below a node is visited in the same order, however deep the node stands. -/
lemma visits_add (depth levels : ℕ) : ∀ request : Request,
    request.visits (depth + levels) = (request.visits depth).map (Visit.lowered levels)
  | ⟨pattern, children⟩ => by
      rw [visits, visits, List.map_cons, ← visitsOf_add (depth + 1) levels children,
        Nat.add_right_comm]
      rfl
termination_by structural request => request

lemma visitsOf_add (depth levels : ℕ) : ∀ requests : List Request,
    visitsOf (depth + levels) requests = (visitsOf depth requests).map (Visit.lowered levels)
  | [] => rfl
  | request :: requests => by
      rw [visitsOf, visitsOf, List.map_append, visits_add depth levels request,
        visitsOf_add depth levels requests]
termination_by structural requests => requests

end

/-- **A walk from the walks of the children.**  The root is visited first, and then each child is
    walked through in turn, one level deeper. -/
theorem walk_eq_cons (request : Request) :
    request.walk
      = ⟨0, request⟩ :: request.children.flatMap fun child => child.walk.map (Visit.lowered 1) := by
  rw [walk_eq, visits_eq, visitsOf_eq_flatMap]
  congr 2
  funext child
  rw [visits_add 0 1 child, walk_eq]

/-! ## Paths -/

mutual

/-- The paths of child numbers that lead to the nodes of a tree, in the order of the nodes. -/
def paths : Request → List (List ℕ)
  | ⟨_, children⟩ => [] :: pathsFrom 0 children
termination_by structural request => request

/-- The paths to the nodes of several trees that stand beside one another, the first of them with
    the given number. -/
def pathsFrom (number : ℕ) : List Request → List (List ℕ)
  | [] => []
  | child :: children => child.paths.map (number :: ·) ++ pathsFrom (number + 1) children
termination_by structural children => children

end

lemma pathsFrom_eq_flatMap (number : ℕ) (children : List Request) :
    pathsFrom number children
      = (children.zipIdx number).flatMap fun (child, place) => child.paths.map (place :: ·) := by
  induction children generalizing number with
  | nil => rfl
  | cons child children ih => rw [pathsFrom, ih, List.zipIdx_cons, List.flatMap_cons]

lemma paths_eq (request : Request) :
    request.paths
      = [] :: request.children.zipIdx.flatMap fun (child, number) =>
          child.paths.map (number :: ·) := by
  rw [← pathsFrom_eq_flatMap]
  cases request
  rfl

lemma exists_cons_of_mem_pathsFrom {number : ℕ} {children : List Request} {path : List ℕ}
    (h : path ∈ pathsFrom number children) :
    ∃ place below, path = place :: below ∧ number ≤ place := by
  rw [pathsFrom_eq_flatMap] at h
  obtain ⟨⟨child, place⟩, hplace, hpath⟩ := List.mem_flatMap.mp h
  obtain ⟨below, -, rfl⟩ := List.mem_map.mp hpath
  exact ⟨place, below, rfl, List.le_snd_of_mem_zipIdx hplace⟩

/-- **The paths are those that lead to a node.** -/
theorem mem_paths {request : Request} {path : List ℕ} :
    path ∈ request.paths ↔ (request.descendant? path).isSome = true := by
  induction path generalizing request with
  | nil => rw [paths_eq, descendant?]; simp
  | cons number path ih =>
      have hchild : number :: path ∈ request.paths
          ↔ ∃ child, request.children[number]? = some child ∧ path ∈ child.paths := by
        rw [paths_eq]
        simp [List.mem_zipIdx_iff_getElem?]
      rw [hchild, descendant?]
      cases request.children[number]? with
      | none => simp
      | some child => simpa using ih

mutual

/-- **The paths are in the order of a dictionary**: the path to a node before those to the nodes
    below it, and these before the paths to the nodes on its right. -/
theorem pairwise_paths : ∀ request : Request, request.paths.Pairwise (· < ·)
  | ⟨pattern, children⟩ => by
      rw [paths, List.pairwise_cons]
      refine ⟨?_, pairwise_pathsFrom 0 children⟩
      intro path hpath
      obtain ⟨place, below, rfl, -⟩ := exists_cons_of_mem_pathsFrom hpath
      exact List.nil_lt_cons _ _
termination_by structural request => request

lemma pairwise_pathsFrom (number : ℕ) : ∀ children : List Request,
    (pathsFrom number children).Pairwise (· < ·)
  | [] => List.Pairwise.nil
  | child :: children => by
      have hchild : (child.paths.map (number :: ·)).Pairwise (· < ·) := by
        refine List.pairwise_map.mpr ((pairwise_paths child).imp ?_)
        intro path other h
        exact List.cons_lt_cons_self.mpr h
      refine List.pairwise_append.mpr ⟨hchild, pairwise_pathsFrom (number + 1) children, ?_⟩
      intro path hpath other hother
      obtain ⟨below, -, rfl⟩ := List.mem_map.mp hpath
      obtain ⟨place, beside, rfl, hplace⟩ := exists_cons_of_mem_pathsFrom hother
      exact List.cons_lt_cons_iff.mpr (Or.inl hplace)
termination_by structural children => children

end

/-! ## The visits of a walk -/

/-- That a visit is made at a path: the path leads to the node, and its length is the depth. -/
def Visit.IsAt (request : Request) (path : List ℕ) (visit : Visit) : Prop :=
  request.descendant? path = some visit.node ∧ visit.depth = path.length

/-- What is at a path from a child is, from the node above, at the path with the number of the child
    in front. -/
lemma Visit.IsAt.lowered {request child : Request} {number : ℕ} {path : List ℕ} {visit : Visit}
    (hchild : request.children[number]? = some child) (h : visit.IsAt child path) :
    (visit.lowered 1).IsAt request (number :: path) := by
  obtain ⟨hnode, hdepth⟩ := h
  refine ⟨?_, ?_⟩
  · rw [descendant?, hchild, Option.bind_some, hnode, Visit.lowered]
  · rw [Visit.lowered, hdepth, List.length_cons]

/-- **The visits of a walk are made at the paths**, one at each and in their order. -/
theorem forall₂_paths_walk (request : Request) :
    List.Forall₂ (Visit.IsAt request) request.paths request.walk := by
  induction request using Request.induction with
  | node pattern children ih =>
      let request : Request := ⟨pattern, children⟩
      let inChild : Request × ℕ → Request → Prop := fun (child, number) other =>
        List.Forall₂ (Visit.IsAt request) (child.paths.map (number :: ·))
          (other.walk.map (Visit.lowered 1))
      have hchildren : List.Forall₂ inChild children.zipIdx (children.zipIdx.map Prod.fst) := by
        refine List.forall₂_map_right_iff.mpr (List.forall₂_same.mpr ?_)
        rintro ⟨child, number⟩ hentry
        have hchild : request.children[number]? = some child :=
          List.mem_zipIdx_iff_getElem?.mp hentry
        have hbelow := ih child (List.mem_of_getElem? hchild)
        refine List.forall₂_map_left_iff.mpr (List.forall₂_map_right_iff.mpr (hbelow.imp ?_))
        exact fun path visit h => h.lowered hchild
      rw [List.zipIdx_map_fst] at hchildren
      rw [paths_eq, walk_eq_cons]
      exact .cons ⟨rfl, rfl⟩ (List.rel_flatMap hchildren fun _ _ h => h)

/-- **The walk of a descendant is one part of the whole walk**, as deep as the path is long. -/
theorem walk_descendant_infix {request node : Request} {path : List ℕ}
    (h : request.descendant? path = some node) :
    node.walk.map (Visit.lowered path.length) <:+: request.walk := by
  induction path generalizing request with
  | nil =>
      obtain rfl : request = node := by simpa [descendant?] using h
      have hsame : request.walk.map (Visit.lowered 0) = request.walk := List.map_id _
      exact ⟨[], [], by rw [List.nil_append, List.append_nil, List.length_nil, hsame]⟩
  | cons number path ih =>
      obtain ⟨child, hchild, hnode⟩ := Option.bind_eq_some_iff.mp h
      have hbelow := (ih hnode).map (Visit.lowered 1)
      rw [List.map_map, Visit.lowered_comp_lowered] at hbelow
      have hpart : child.walk.map (Visit.lowered 1)
          <:+: request.children.flatMap fun child => child.walk.map (Visit.lowered 1) :=
        List.infix_of_mem_flatten (List.mem_map_of_mem (List.mem_of_getElem? hchild))
      rw [walk_eq_cons request]
      exact (hbelow.trans hpart).trans (List.suffix_cons _ _).isInfix

/-- **A walk is the pre-order.**

* It ends after as many visits as the tree has nodes.
* It visits the root at depth 0 and then makes the walk of each child in turn, one level deeper.
* Its visits are made at the paths to the nodes, one at each, with the length of the path for the
  depth.  A path comes before those that go on from it, and these before the paths on the right.
* The walk of a descendant is one part of it, deeper by the length of the path. -/
theorem walk_preorder (request : Request) :
    request.walk.length = request.size
      ∧ request.walk = ⟨0, request⟩ :: request.children.flatMap (fun child =>
          child.walk.map (Visit.lowered 1))
      ∧ (request.paths.Pairwise (· < ·)
        ∧ (∀ path, path ∈ request.paths ↔ (request.descendant? path).isSome = true)
        ∧ List.Forall₂ (Visit.IsAt request) request.paths request.walk)
      ∧ ∀ path node, request.descendant? path = some node →
          node.walk.map (Visit.lowered path.length) <:+: request.walk :=
  ⟨length_walk request, walk_eq_cons request,
    ⟨pairwise_paths request, fun _ => mem_paths, forall₂_paths_walk request⟩,
    fun _ _ => walk_descendant_infix⟩

/-- Two nodes of this tree are equal trees under one name, so it would not be accepted.  They stand
    at different depths, and the walk comes to both. -/
theorem walk_preorder_with_twins :
    ∃ request twin : Request, ¬ (request.nodes.map fun node => node.pattern.name).Nodup
      ∧ request.descendant? [0, 0] = some twin ∧ request.descendant? [1] = some twin
      ∧ request.paths = [[], [0], [0, 0], [1]]
      ∧ twin.walk.map (Visit.lowered 2) <:+: request.walk
      ∧ twin.walk.map (Visit.lowered 1) <:+: request.walk := by
  let twin : Request := leaf (.bare "child" none)
  let request : Request :=
    ⟨.bare "root" (some "r"), [⟨.bare "child" (some "c"), [twin]⟩, twin]⟩
  obtain ⟨-, -, -, hparts⟩ := walk_preorder request
  exact ⟨request, twin, by decide, rfl, rfl, rfl, hparts [0, 0] twin rfl, hparts [1] twin rfl⟩

end Request

end GraphRequest
