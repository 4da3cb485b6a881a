import MapChain.Proofs.Graph.Update
import Mathlib.Data.List.Chain
import Mathlib.Data.List.Perm.Subperm
import Mathlib.Logic.Relation

/-!
Ways from a node to its sources, to theirs, and so on. Main statement: a way that meets no circle
passes at most as many nodes as the graph has.
-/

set_option autoImplicit false

namespace MapChain.Graph

variable {graph : Graph}

def Source (graph : Graph) (parent child : NodeId) : Prop :=
  ∃ node, graph.node? parent = some node ∧ child ∈ node.sources

def Reaches (graph : Graph) : NodeId → NodeId → Prop := Relation.ReflTransGen graph.Source

/-- A node that came from itself, at once or by way of others. -/
def OnCycle (graph : Graph) (id : NodeId) : Prop := Relation.TransGen graph.Source id id

theorem source_of_get {id child : NodeId} {node : Node} {index : Nat}
    (present : graph.node? id = some node) (found : node.sources[index]? = some child) :
    graph.Source id child :=
  ⟨node, present, List.mem_of_getElem? found⟩

theorem reaches_of_walk {start : NodeId} {walk : List NodeId}
    (linked : (start :: walk).IsChain graph.Source) {id : NodeId} (member : id ∈ start :: walk) :
    graph.Reaches start id := by
  induction walk generalizing start with
  | nil =>
      rw [List.mem_singleton] at member
      rw [member]
      exact Relation.ReflTransGen.refl
  | cons next walk induction =>
      have step := (List.isChain_cons_cons.1 linked).1
      rcases List.mem_cons.1 member with first | later
      · rw [first]
        exact Relation.ReflTransGen.refl
      · exact Relation.ReflTransGen.head step (induction (List.isChain_cons_cons.1 linked).2 later)

/-- Every node of a way leads to all later ones, so a node that is met twice lies on a circle. -/
theorem nodup_walk {walk : List NodeId} (linked : walk.IsChain graph.Source)
    (straight : ∀ id ∈ walk, ¬graph.OnCycle id) : walk.Nodup := by
  have onward : walk.Pairwise (Relation.TransGen graph.Source) :=
    List.isChain_iff_pairwise.1 (linked.imp fun _ _ step => Relation.TransGen.single step)
  refine List.Pairwise.imp_of_mem ?_ onward
  intro earlier later member _ leads same
  rw [← same] at leads
  exact straight earlier member leads

theorem walk_length_le {walk : List NodeId} (nodup : walk.Nodup)
    (inside : ∀ id ∈ walk, id < graph.size) : walk.length ≤ graph.size := by
  have within : walk ⊆ List.range graph.size := fun id member => List.mem_range.2 (inside id member)
  have bound := (nodup.subperm within).length_le
  rwa [List.length_range] at bound

end MapChain.Graph
