import GraphRequest.Request.Registration
import Mathlib.Data.List.Nodup
import Mathlib.Tactic.Lemma

/-!
# What registration accepts

Registration goes through a tree once and stops at the first fault.  Seen from its result it is a
condition on the whole tree.

* `Request.nodes` — all nodes of a tree, each before its children.
* `Request.induction` — what holds of a tree if it holds of the trees below its root holds of every
  tree.
* `Request.register_eq_iff` — registration passes exactly if every node hangs on an edge and
  reports something and no name is taken twice, and then it has gone through all nodes in order.
* `Request.ofText_eq_ok_iff` — the same of a whole text.
-/

namespace GraphRequest

namespace Request

/-! ## The nodes of a tree -/

mutual

/-- The nodes of a tree, each before its children. -/
def nodes : Request → List Request
  | ⟨pattern, children⟩ => ⟨pattern, children⟩ :: nodesOf children
termination_by structural request => request

/-- The nodes of several trees, one tree after the other. -/
def nodesOf : List Request → List Request
  | [] => []
  | request :: requests => request.nodes ++ nodesOf requests
termination_by structural requests => requests

end

mutual

/-- Induction over trees. -/
@[elab_as_elim]
theorem induction {motive : Request → Prop}
    (node : ∀ pattern children, (∀ child ∈ children, motive child) → motive ⟨pattern, children⟩) :
    ∀ request, motive request
  | ⟨pattern, children⟩ => node pattern children (inductionOf node children)
termination_by structural request => request

lemma inductionOf {motive : Request → Prop}
    (node : ∀ pattern children, (∀ child ∈ children, motive child) → motive ⟨pattern, children⟩) :
    ∀ requests : List Request, ∀ request ∈ requests, motive request
  | [] => nofun
  | request :: requests =>
    List.forall_mem_cons.mpr ⟨induction node request, inductionOf node requests⟩
termination_by structural requests => requests

end

lemma nodes_eq (request : Request) : request.nodes = request :: nodesOf request.children := by
  cases request
  rfl

@[simp] lemma nodesOf_nil : nodesOf [] = [] := rfl

@[simp] lemma nodesOf_cons (request : Request) (requests : List Request) :
    nodesOf (request :: requests) = request.nodes ++ nodesOf requests := rfl

@[simp] lemma nodesOf_append (before after : List Request) :
    nodesOf (before ++ after) = nodesOf before ++ nodesOf after := by
  induction before with
  | nil => rfl
  | cons request before ih => simp [ih]

lemma mem_nodesOf {node : Request} {requests : List Request} :
    node ∈ nodesOf requests ↔ ∃ request ∈ requests, node ∈ request.nodes := by
  induction requests with
  | nil => simp
  | cons request requests ih => simp [ih]

lemma nodes_mk (pattern : Pattern) (children : List Request) :
    nodes ⟨pattern, children⟩ = [⟨pattern, children⟩] ++ nodesOf children :=
  nodes_eq _

lemma nodes_subset_nodesOf {child : Request} {children : List Request} (h : child ∈ children) :
    child.nodes ⊆ nodesOf children :=
  fun _ hnode => mem_nodesOf.mpr ⟨child, h, hnode⟩

lemma mem_nodes {node request : Request} :
    node ∈ request.nodes ↔ node = request ∨ node ∈ nodesOf request.children := by
  rw [nodes_eq, List.mem_cons]

lemma mem_nodes_self (request : Request) : request ∈ request.nodes :=
  mem_nodes.mpr (Or.inl rfl)

/-- The children of a node are nodes too. -/
lemma mem_nodes_of_mem_children {node request : Request} (h : node ∈ request.nodes)
    {child : Request} (hchild : child ∈ node.children) : child ∈ request.nodes := by
  induction request using Request.induction with
  | node pattern children ih =>
      rcases mem_nodes.mp h with rfl | h
      · exact mem_nodes.mpr (Or.inr (mem_nodesOf.mpr ⟨child, hchild, mem_nodes_self child⟩))
      · obtain ⟨request, hrequest, hnode⟩ := mem_nodesOf.mp h
        have hbelow := ih request hrequest hnode
        exact mem_nodes.mpr (Or.inr (mem_nodesOf.mpr ⟨request, hrequest, hbelow⟩))

/-- Every node is the root or a child of a node. -/
lemma eq_or_mem_children {node request : Request} (h : node ∈ request.nodes) :
    node = request ∨ ∃ above ∈ request.nodes, node ∈ above.children := by
  induction request using Request.induction with
  | node pattern children ih =>
      rcases mem_nodes.mp h with rfl | h
      · exact Or.inl rfl
      obtain ⟨child, hchild, hnode⟩ := mem_nodesOf.mp h
      refine Or.inr ?_
      rcases ih child hchild hnode with rfl | ⟨above, habove, hmem⟩
      · exact ⟨_, mem_nodes_self _, hchild⟩
      · exact ⟨above, mem_nodes.mpr (Or.inr (nodes_subset_nodesOf hchild habove)), hmem⟩

/-! ## Registration as a condition -/

/-- That a node is taken in if its alias is free, and left without a fault. -/
def Registrable (node : Request) : Prop :=
  node.pattern.lacksEdge = false ∧ (node.pattern.fields ≠ [] ∨ node.children ≠ [])

/-- Whether an alias is taken is a question of names. -/
lemma any_name_eq (seen : List Pattern) (pattern : Pattern) :
    (seen.any fun other => other.name == pattern.name) = true
      ↔ pattern.name ∈ seen.map Pattern.name := by
  simp only [List.any_eq_true, List.mem_map, beq_iff_eq]

mutual

/-- **What registration accepts**: exactly the trees whose nodes can all be registered and have
    distinct names; their patterns are then known in order. -/
theorem register_eq_iff : ∀ (request : Request) (seen known : List Pattern),
    (seen.map Pattern.name).Nodup →
      (request.register seen = (known, none)
        ↔ known = seen ++ request.nodes.map Request.pattern
          ∧ (∀ node ∈ request.nodes, node.Registrable) ∧ (known.map Pattern.name).Nodup)
  | ⟨pattern, children⟩ => by
      intro seen known hseen
      rw [register, nodes_eq, List.map_cons, List.forall_mem_cons]
      by_cases hedge : pattern.lacksEdge = true
      · simp [hedge, Registrable]
      rw [if_neg hedge]
      by_cases hname : pattern.name ∈ seen.map Pattern.name
      · -- A taken alias would stand twice among the names known.
        rw [if_pos ((any_name_eq seen pattern).mpr hname)]
        refine ⟨fun h => by simp at h, fun ⟨hknown, _, hnodup⟩ => ?_⟩
        rw [hknown, List.map_append, List.map_cons] at hnodup
        exact (List.disjoint_of_nodup_append hnodup hname List.mem_cons_self).elim
      rw [if_neg fun h => hname ((any_name_eq seen pattern).mp h)]
      have hseen' : ((seen ++ [pattern]).map Pattern.name).Nodup := by
        rw [List.map_append, List.nodup_append_comm]
        exact List.nodup_cons.mpr ⟨hname, hseen⟩
      have ih := registerAll_eq_iff children _ known hseen'
      rw [List.append_assoc, List.singleton_append] at ih
      rcases hrest : registerAll (seen ++ [pattern]) children with ⟨middle, _ | fault⟩
      · by_cases hreports : pattern.fields ≠ [] ∨ children ≠ []
        · have hshown : ¬ (pattern.fields.isEmpty && children.isEmpty) = true := by
            simpa [imp_iff_not_or] using hreports
          rw [hrest] at ih
          simp only [if_neg hshown, ih, Registrable, hedge, hreports]
          exact ⟨fun ⟨hknown, hall, hnodup⟩ => ⟨hknown, ⟨⟨by simp, trivial⟩, hall⟩, hnodup⟩,
            fun ⟨hknown, ⟨_, hall⟩, hnodup⟩ => ⟨hknown, hall, hnodup⟩⟩
        · have hshown : (pattern.fields.isEmpty && children.isEmpty) = true := by
            simpa using hreports
          simp [hshown, Registrable, hreports]
      · rw [hrest] at ih
        refine ⟨fun h => by simp at h, fun ⟨hknown, ⟨_, hall⟩, hnodup⟩ => ?_⟩
        simpa using ih.mpr ⟨hknown, hall, hnodup⟩
termination_by structural request => request

lemma registerAll_eq_iff : ∀ (requests : List Request) (seen known : List Pattern),
    (seen.map Pattern.name).Nodup →
      (registerAll seen requests = (known, none)
        ↔ known = seen ++ (nodesOf requests).map Request.pattern
          ∧ (∀ node ∈ nodesOf requests, node.Registrable) ∧ (known.map Pattern.name).Nodup)
  | [] => by
      intro seen known hseen
      simp only [registerAll, Prod.mk.injEq, and_true, nodesOf_nil, List.map_nil, List.append_nil,
        List.not_mem_nil, false_imp_iff, implies_true, true_and]
      exact ⟨fun h => ⟨h.symm, h ▸ hseen⟩, fun h => h.1.symm⟩
  | request :: requests => by
      intro seen known hseen
      rw [registerAll, nodesOf_cons, List.map_append, List.forall_mem_append]
      rcases hregister : request.register seen with ⟨middle, _ | fault⟩
      · obtain ⟨rfl, hall, hnodup⟩ := (register_eq_iff request seen _ hseen).mp hregister
        simp only [registerAll_eq_iff requests _ known hnodup, List.append_assoc]
        exact ⟨fun ⟨hknown, hall', hnodup'⟩ => ⟨hknown, ⟨hall, hall'⟩, hnodup'⟩,
          fun ⟨hknown, ⟨_, hall'⟩, hnodup'⟩ => ⟨hknown, hall', hnodup'⟩⟩
      · -- Were all names distinct, the tree in front would have been registered.
        refine ⟨fun h => by simp at h, fun ⟨hknown, ⟨hall, _⟩, hnodup⟩ => ?_⟩
        rw [hknown, ← List.append_assoc, List.map_append] at hnodup
        have hpassed :=
          (register_eq_iff request seen _ hseen).mpr ⟨rfl, hall, hnodup.of_append_left⟩
        rw [hregister] at hpassed
        simp at hpassed
termination_by structural requests => requests

end

/-- A text is accepted if it can be read and the tree gathered from it can be registered. -/
theorem ofText_eq_ok_iff {text : String} {request : Request} :
    (ofText text).2 = .ok request
      ↔ ∃ phrase rest, (Phrase.request (Token.ofText text)).value = some (phrase, rest)
        ∧ ofPhrase none phrase = request ∧ (∀ node ∈ request.nodes, node.Registrable)
        ∧ (request.nodes.map fun node => node.pattern.name).Nodup := by
  have hpasses : ∀ request : Request, (∃ known, request.register [] = (known, none))
      ↔ (∀ node ∈ request.nodes, node.Registrable)
        ∧ (request.nodes.map fun node => node.pattern.name).Nodup := by
    intro request
    simp only [register_eq_iff request [] _ List.nodup_nil, List.nil_append, exists_eq_left,
      List.map_map]
    rfl
  rw [ofText]
  cases hread : (Phrase.request (Token.ofText text)).value with
  | none => simp
  | some read =>
      obtain ⟨phrase, rest⟩ := read
      simp only [Option.some.injEq, Prod.mk.injEq]
      rcases hregister : (ofPhrase none phrase).register [] with ⟨known, _ | fault⟩
      · have hall := (hpasses _).mp ⟨known, hregister⟩
        constructor
        · rintro hok
          cases hok
          exact ⟨phrase, rest, ⟨rfl, rfl⟩, rfl, hall⟩
        · rintro ⟨_, _, ⟨rfl, rfl⟩, rfl, -⟩
          rfl
      · refine ⟨fun hok => (nomatch hok), ?_⟩
        rintro ⟨_, _, ⟨rfl, rfl⟩, rfl, hall⟩
        obtain ⟨known', hpassed⟩ := (hpasses _).mpr hall
        rw [hregister] at hpassed
        simp at hpassed

end Request

end GraphRequest
