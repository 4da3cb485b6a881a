import MapChain.Graph.Basic

/-!
What the changes of a graph do to its nodes, one by one. Main statement: attaching leaves every
node where it is, and offers content to one of them or adds a fresh one at the end.
-/

set_option autoImplicit false

namespace MapChain.Graph

variable {graph : Graph} {id other : NodeId} {node : Node}

@[simp]
theorem node_modify_self (graph : Graph) (id : NodeId) (change : Node → Node) :
    (graph.modify id change).node? id = (graph.node? id).map change := by
  unfold modify node?
  rw [Array.getElem?_modify, if_pos rfl]

theorem node_modify_of_ne (graph : Graph) (change : Node → Node) (different : other ≠ id) :
    (graph.modify id change).node? other = graph.node? other := by
  unfold modify node?
  rw [Array.getElem?_modify, if_neg (Ne.symm different)]

@[simp]
theorem node_push_size (graph : Graph) (node : Node) :
    (graph.push node).node? graph.size = some node := by
  simp [push, size, node?]

theorem node_push_of_ne (graph : Graph) (node : Node) (different : id ≠ graph.size) :
    (graph.push node).node? id = graph.node? id := by
  have inner : id ≠ graph.nodes.size := different
  unfold push node?
  rw [Array.getElem?_push, if_neg inner]

theorem node_push_cases {new : Node} (present : (graph.push node).node? id = some new) :
    (id = graph.size ∧ new = node) ∨ graph.node? id = some new := by
  by_cases last : id = graph.size
  · rw [last, node_push_size] at present
    cases present
    exact Or.inl ⟨last, rfl⟩
  · rw [node_push_of_ne graph node last] at present
    exact Or.inr present

theorem lt_size_of_node (present : graph.node? id = some node) : id < graph.size :=
  (Array.getElem?_eq_some_iff.1 present).1

theorem node_modify_cases {change : Node → Node}
    (present : (graph.modify id change).node? other = some node) :
    (other ≠ id ∧ graph.node? other = some node) ∨
      (other = id ∧ ∃ old, graph.node? id = some old ∧ node = change old) := by
  by_cases same : other = id
  · subst same
    rw [node_modify_self] at present
    obtain ⟨old, there, rfl⟩ := Option.map_eq_some_iff.1 present
    exact Or.inr ⟨rfl, old, there, rfl⟩
  · rw [node_modify_of_ne graph change same] at present
    exact Or.inl ⟨same, present⟩

@[simp]
theorem node_enter (graph : Graph) (path : Path) (entry id : NodeId) :
    (graph.enter path entry).node? id = graph.node? id := rfl

inductive Attached (graph : Graph) (content : Option String) : Option Path → Graph × NodeId → Prop
  where
  | nameless : Attached graph content none (graph.push (.fresh none content), graph.size)
  | known {path : Path} {id : NodeId} (found : graph.lookup path = some id) :
      Attached graph content (some path) (graph.modify id (·.offer content), id)
  | added {path : Path} (absent : graph.lookup path = none) :
      Attached graph content (some path)
        ((graph.push (.fresh (some path) content)).enter path graph.size, graph.size)

theorem attached (graph : Graph) (path : Option Path) (content : Option String) :
    Attached graph content path (graph.attach path content) := by
  cases path with
  | none => exact .nameless
  | some path =>
      cases found : graph.lookup path with
      | some id =>
          rw [attach_of_lookup found]
          exact .known found
      | none =>
          rw [attach_of_lookup_none found]
          exact .added found

end MapChain.Graph
