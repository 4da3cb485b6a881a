import MapChain.Proofs.Graph.Circling

/-!
Ways that are left sooner. The existing policy ends a way wherever the full one does, and above
content that is missing. Up to there both policies take the same hops. Main statement: where the
full policy finds an end, the existing policy finds one on the way to it.
-/

set_option autoImplicit false

namespace MapChain.Graph

variable {graph : Graph} {position next : Position} {trace : Trace} {id : NodeId} {hops : Nat}

theorem terminal_of_full (terminal : graph.isTerminal .full id = true) :
    graph.isTerminal .existing id = true := by
  rw [← Bool.not_eq_false] at terminal ⊢
  intro inner
  apply terminal
  rw [is_terminal_eq_false_iff] at inner ⊢
  rcases inner with ⟨node, present, mapped, read, filled, -⟩
  refine ⟨node, present, mapped, read, filled, ?_⟩
  intro other
  cases other

theorem terminal_of_hop_arrived {flatten : Flatten}
    (arrived : graph.hop flatten position = .arrived trace) :
    ∃ node, graph.node? position.node = some node ∧
      graph.isTerminal flatten position.node = true := by
  unfold hop at arrived
  split at arrived
  · cases arrived
  · next node present =>
      split at arrived
      · next terminal => exact ⟨node, present, terminal⟩
      · split at arrived <;> cases arrived

theorem hop_of_passed (passed : graph.isTerminal .existing position.node = false) :
    graph.hop .existing position = graph.hop .full position := by
  have inner : graph.isTerminal .full position.node = false := by
    rw [← Bool.not_eq_true]
    intro terminal
    rw [terminal_of_full terminal] at passed
    cases passed
  simp only [hop, passed, inner]

/-- After so many hops of the full policy the existing policy ends the way, at this place. -/
structure StopsAt (graph : Graph) (position : Position) (hops : Nat) (place : Position)
    (node : Node) : Prop where
  passed : graph.after? .full hops position = some place
  followed : graph.after? .existing hops position = some place
  present : graph.node? place.node = some node
  terminal : graph.isTerminal .existing place.node = true

theorem stops_here {node : Node} (present : graph.node? position.node = some node)
    (terminal : graph.isTerminal .existing position.node = true) :
    graph.StopsAt position 0 position node :=
  ⟨rfl, rfl, present, terminal⟩

theorem StopsAt.behind {place : Position} {node : Node}
    (passed : graph.isTerminal .existing position.node = false)
    (onward : graph.hop .full position = .onward next)
    (stops : graph.StopsAt next hops place node) :
    graph.StopsAt position (hops + 1) place node where
  passed := by
    rw [after_succ_of_onward onward]
    exact stops.passed
  followed := by
    rw [← hop_of_passed passed] at onward
    rw [after_succ_of_onward onward]
    exact stops.followed
  present := stops.present
  terminal := stops.terminal

/-- A way that the full policy follows to its end is ended by the existing policy on the way. -/
theorem stops_of_trace_within (found : graph.traceWithin .full hops position = some trace) :
    ∃ sooner < hops, ∃ place node, graph.StopsAt position sooner place node ∧
      graph.Traces .full place trace := by
  induction hops generalizing position with
  | zero => cases found
  | succ hops induction =>
      have traces := traces_of_trace_within found
      rw [traceWithin] at found
      cases step : graph.hop .full position with
      | unmapped =>
          rw [step] at found
          cases found
      | arrived reached =>
          rcases terminal_of_hop_arrived step with ⟨node, present, terminal⟩
          have stops := stops_here present (terminal_of_full terminal)
          exact ⟨0, Nat.succ_pos hops, position, node, stops, traces⟩
      | onward next =>
          rw [step] at found
          rcases of_hop_onward step with ⟨node, present, -, -⟩
          cases terminal : graph.isTerminal .existing position.node with
          | true =>
              exact ⟨0, Nat.succ_pos hops, position, node, stops_here present terminal, traces⟩
          | false =>
              rcases induction found with ⟨sooner, less, place, last, stops, rest⟩
              have later := stops.behind terminal step
              exact ⟨sooner + 1, Nat.succ_lt_succ less, place, last, later, rest⟩

theorem trace_existing_of_stops {place : Position} {node : Node} (less : hops < graph.size + 1)
    (stops : graph.StopsAt position hops place node) :
    graph.trace .existing position =
      some ⟨place.node, node.path, place.line + 1, place.column.getD 0, place.name⟩ := by
  apply trace_within_eq_some_iff.2
  exact ⟨hops, less, place, stops.followed, hop_of_terminal stops.present stops.terminal⟩

end MapChain.Graph
