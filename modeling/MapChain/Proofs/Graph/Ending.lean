import MapChain.Proofs.Graph.Tracing

/-!
Where traces end. Main statements: a trace ends at a terminal node, more hops find the same end,
and under the existing policy a way that begins at a node with content ends at one.
-/

set_option autoImplicit false

namespace MapChain.Graph

variable {graph : Graph} {flatten : Flatten} {position : Position} {trace : Trace} {id : NodeId}

theorem is_terminal_eq_false_iff :
    graph.isTerminal flatten id = false ↔
      ∃ node, graph.node? id = some node ∧ node.map.isSome = true ∧
        node.mappings.isSome = true ∧ node.sources ≠ [] ∧
        (flatten = .existing → ∀ child ∈ node.sources, graph.hasContent child = true) := by
  unfold isTerminal hasCompleteContent
  cases graph.node? id with
  | none => simp
  | some node =>
      have bare : node.map.isNone = false ↔ node.map.isSome = true := by
        cases node.map <;> simp
      have unread : node.mappings.isNone = false ↔ node.mappings.isSome = true := by
        cases node.mappings <;> simp
      have complete : (!node.sources.all graph.hasContent) = false ↔
          ∀ child ∈ node.sources, graph.hasContent child = true := by
        rw [Bool.not_eq_false', List.all_eq_true]
      simp only [Option.any_some, Bool.or_eq_false_iff, Bool.and_eq_false_iff, bare, unread,
        complete, List.isEmpty_eq_false_iff, decide_eq_false_iff_not, Option.some.injEq,
        exists_eq_left', and_assoc, imp_iff_not_or]

theorem trace_within_succ {hops : Nat}
    (found : graph.traceWithin flatten hops position = some trace) :
    graph.traceWithin flatten (hops + 1) position = some trace := by
  induction hops generalizing position with
  | zero => cases found
  | succ hops induction =>
      rw [traceWithin] at found ⊢
      cases step : graph.hop flatten position with
      | arrived reached =>
          rw [step] at found
          exact found
      | unmapped =>
          rw [step] at found
          cases found
      | onward next =>
          rw [step] at found
          exact induction found

theorem terminal_of_traces (traces : graph.Traces flatten position trace) :
    ∃ node, graph.node? trace.node = some node ∧ trace.source = node.path ∧
      graph.isTerminal flatten trace.node = true := by
  induction traces with
  | arrived present terminal => exact ⟨_, present, rfl, terminal⟩
  | onward _ _ _ _ induction => exact induction

theorem has_content_of_traces (traces : graph.Traces .existing position trace)
    (content : graph.hasContent position.node = true) : graph.hasContent trace.node = true := by
  induction traces with
  | arrived present terminal => exact content
  | onward present inner leads rest induction =>
      apply induction
      obtain ⟨node, there, -, -, -, complete⟩ := is_terminal_eq_false_iff.1 inner
      obtain ⟨parent, same, member⟩ := source_of_leads present leads
      rw [there] at same
      cases same
      exact complete rfl _ member

end MapChain.Graph
