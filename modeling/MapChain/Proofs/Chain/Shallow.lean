import MapChain.Proofs.Chain.Carrying

/-!
Roots whose ways all end at their own sources. Main statements: what such a root is traced to stands
in its segments, and thirty-two bits can count the sources and the names that turn up.
-/

set_option autoImplicit false

namespace MapChain

variable {graph : Graph} {flatten : Flatten} {node : Node}

/-- Tracing ends at every source of `node`. -/
def Graph.Shallow (graph : Graph) (flatten : Flatten) (node : Node) : Prop :=
  ∀ child ∈ node.sources, ∃ last, graph.node? child = some last ∧
    graph.isTerminal flatten child = true

theorem Graph.trace_of_terminal {position : Position}
    (present : graph.node? position.node = some node)
    (terminal : graph.isTerminal flatten position.node = true) :
    graph.trace flatten position =
      some ⟨position.node, node.path, position.line + 1, position.column.getD 0,
        position.name⟩ :=
  trace_of_arrived (hop_of_terminal present terminal)

theorem Graph.ends_iff_of_shallow {origin : Origin} {trace : Trace}
    (shallow : graph.Shallow flatten node) :
    graph.Ends flatten node origin trace ↔
      ∃ child last, node.sources[origin.source.toNat]? = some child ∧
        graph.node? child = some last ∧
        trace = ⟨child, last.path, origin.line + 1, origin.column, node.nameOf? origin⟩ := by
  constructor
  · intro ends
    rcases ends with ⟨child, source, found⟩
    rcases shallow child (List.mem_of_getElem? source) with ⟨last, present, terminal⟩
    rw [trace_of_terminal present terminal, Option.some.injEq] at found
    exact ⟨child, last, source, present, found.symm⟩
  · intro there
    rcases there with ⟨child, last, source, present, same⟩
    rcases shallow child (List.mem_of_getElem? source) with ⟨_, _, terminal⟩
    refine ⟨child, source, ?_⟩
    rw [trace_of_terminal present terminal, same]
    rfl

theorem flat_map_some {Value : Type} (values : List Value) :
    (values.map some).flatMap Option.toList = values := by
  rw [List.flatMap_map]
  exact List.flatMap_singleton' values

theorem length_le_of_indices {Value : Type} {values list : List Value} (nodup : values.Nodup)
    (indexed : ∀ value ∈ values, ∃ index : UInt32, list[index.toNat]? = some value) :
    values.length ≤ UInt32.size := by
  have within : values ⊆ list.take UInt32.size := by
    intro value member
    rcases indexed value member with ⟨index, found⟩
    have small : index.toNat < UInt32.size := index.toNat_lt
    rw [← List.getElem?_take_of_lt small] at found
    exact List.mem_of_getElem? found
  exact (nodup.subperm within).length_le.trans (List.length_take_le _ _)

theorem length_sources_of_shallow (shallow : graph.Shallow flatten node) (lines : Mappings) :
    (graph.traceLines flatten node lines).sources.length ≤ UInt32.size := by
  apply length_le_of_indices (TracedLines.nodup_sources _)
  intro id member
  rw [TracedLines.sources, List.mem_eraseDups] at member
  rcases List.mem_map.1 member with ⟨trace, reached, rfl⟩
  rcases ends_of_mem_traces reached with ⟨origin, ends⟩
  rcases (Graph.ends_iff_of_shallow shallow).1 ends with ⟨child, last, source, -, rfl⟩
  exact ⟨origin.source, source⟩

theorem length_names_of_shallow {map : SourceMap} (mapped : node.map = some map)
    (shallow : graph.Shallow flatten node) (lines : Mappings) :
    (graph.traceLines flatten node lines).names.length ≤ UInt32.size := by
  apply length_le_of_indices (TracedLines.nodup_names _)
  intro name member
  rw [TracedLines.names, List.mem_eraseDups] at member
  rcases List.mem_filterMap.1 member with ⟨trace, reached, named⟩
  rcases ends_of_mem_traces reached with ⟨origin, ends⟩
  rcases (Graph.ends_iff_of_shallow shallow).1 ends with ⟨child, last, -, -, rfl⟩
  rcases Option.bind_eq_some_iff.1 named with ⟨index, -, found⟩
  rw [mapped] at found
  exact ⟨index, found⟩

end MapChain
