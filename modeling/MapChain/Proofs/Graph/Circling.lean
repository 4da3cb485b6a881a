import MapChain.Mappings.Text
import MapChain.Proofs.Graph.Ending

/-!
Ways that pass a node more than once. A file may be a source of its own at other lines, so a way can
be longer than the graph has nodes and still come to an end, while the bound of a trace counts
nodes. Main statement: a trace is cut off wrongly just where its way ends after more hops than there
are nodes, and it is cut off at all only below a node that came from itself.
-/

set_option autoImplicit false

namespace MapChain.Graph

variable {graph : Graph} {flatten : Flatten} {position next last : Position} {trace : Trace}
  {hops sooner : Nat}

/-- The position that so many hops lead to. -/
def after? (graph : Graph) (flatten : Flatten) : Nat → Position → Option Position
  | 0, position => some position
  | hops + 1, position =>
      match graph.hop flatten position with
      | .onward next => after? graph flatten hops next
      | _ => none

/-- After so many hops no other follows: the way has come to a terminal node or is not mapped. -/
def EndsAfter (graph : Graph) (flatten : Flatten) (hops : Nat) (position : Position) : Prop :=
  ∃ last, graph.after? flatten hops position = some last ∧
    ∀ next, graph.hop flatten last ≠ .onward next

def Endless (graph : Graph) (flatten : Flatten) (position : Position) : Prop :=
  ∀ hops, ∃ later, graph.after? flatten hops position = some later

/-- All hops that a trace may take lead onward, so it is given up. -/
def Exhausts (graph : Graph) (flatten : Flatten) (position : Position) : Prop :=
  ∃ later, graph.after? flatten (graph.size + 1) position = some later

theorem after_succ_of_onward (onward : graph.hop flatten position = .onward next) (hops : Nat) :
    graph.after? flatten (hops + 1) position = graph.after? flatten hops next := by
  rw [after?, onward]

theorem after_succ_eq_some (led : graph.after? flatten (hops + 1) position = some last) :
    ∃ next, graph.hop flatten position = .onward next ∧
      graph.after? flatten hops next = some last := by
  rw [after?] at led
  cases step : graph.hop flatten position with
  | onward next =>
      rw [step] at led
      exact ⟨next, rfl, led⟩
  | arrived trace =>
      rw [step] at led
      cases led
  | unmapped =>
      rw [step] at led
      cases led

theorem ends_after_succ_iff (onward : graph.hop flatten position = .onward next) :
    graph.EndsAfter flatten (hops + 1) position ↔ graph.EndsAfter flatten hops next := by
  unfold EndsAfter
  rw [after_succ_of_onward onward]

theorem ends_after_zero_iff :
    graph.EndsAfter flatten 0 position ↔ ∀ next, graph.hop flatten position ≠ .onward next := by
  simp [EndsAfter, after?]

theorem after_eq_none_iff :
    graph.after? flatten hops position = none ↔
      ∃ sooner < hops, graph.EndsAfter flatten sooner position := by
  induction hops generalizing position with
  | zero => simp [after?]
  | succ hops induction =>
      by_cases stuck : ∀ next, graph.hop flatten position ≠ .onward next
      · have none : graph.after? flatten (hops + 1) position = none := by
          rw [Option.eq_none_iff_forall_ne_some]
          intro later led
          obtain ⟨next, onward, -⟩ := after_succ_eq_some led
          exact stuck next onward
        exact iff_of_true none ⟨0, Nat.succ_pos hops, ends_after_zero_iff.2 stuck⟩
      · obtain ⟨next, onward⟩ := not_forall_not.1 stuck
        rw [after_succ_of_onward onward, induction]
        constructor
        · rintro ⟨sooner, less, ends⟩
          exact ⟨sooner + 1, Nat.succ_lt_succ less, (ends_after_succ_iff onward).2 ends⟩
        · rintro ⟨sooner, less, ends⟩
          cases sooner with
          | zero => exact absurd onward (ends_after_zero_iff.1 ends next)
          | succ sooner =>
              exact ⟨sooner, Nat.lt_of_succ_lt_succ less, (ends_after_succ_iff onward).1 ends⟩

theorem trace_within_eq_some_iff :
    graph.traceWithin flatten hops position = some trace ↔
      ∃ sooner < hops, ∃ last, graph.after? flatten sooner position = some last ∧
        graph.hop flatten last = .arrived trace := by
  induction hops generalizing position with
  | zero => simp [traceWithin]
  | succ hops induction =>
      rw [traceWithin]
      constructor
      · intro found
        cases step : graph.hop flatten position with
        | arrived reached =>
            rw [step] at found
            cases found
            exact ⟨0, Nat.succ_pos hops, position, rfl, step⟩
        | unmapped =>
            rw [step] at found
            cases found
        | onward next =>
            rw [step] at found
            obtain ⟨sooner, less, last, led, arrived⟩ := induction.1 found
            refine ⟨sooner + 1, Nat.succ_lt_succ less, last, ?_, arrived⟩
            rw [after_succ_of_onward step, led]
      · rintro ⟨sooner, less, last, led, arrived⟩
        cases sooner with
        | zero =>
            cases led
            rw [arrived]
        | succ sooner =>
            obtain ⟨next, onward, rest⟩ := after_succ_eq_some led
            rw [onward]
            exact induction.2 ⟨sooner, Nat.lt_of_succ_lt_succ less, last, rest, arrived⟩

/-- A position came from where its way ends, however long that way is. -/
theorem traces_iff_after :
    graph.Traces flatten position trace ↔
      ∃ hops last, graph.after? flatten hops position = some last ∧
        graph.hop flatten last = .arrived trace := by
  constructor
  · intro traces
    obtain ⟨walk, -, -, within⟩ := walk_of_traces traces
    obtain ⟨sooner, -, last, led, arrived⟩ :=
      trace_within_eq_some_iff.1 (within (walk.length + 1) (Nat.lt_succ_self _))
    exact ⟨sooner, last, led, arrived⟩
  · rintro ⟨hops, last, led, arrived⟩
    exact traces_of_trace_within
      (trace_within_eq_some_iff.2 ⟨hops, Nat.lt_succ_self hops, last, led, arrived⟩)

theorem ends_after_of_arrived (led : graph.after? flatten hops position = some last)
    (arrived : graph.hop flatten last = .arrived trace) :
    graph.EndsAfter flatten hops position := by
  refine ⟨last, led, fun next onward => ?_⟩
  rw [arrived] at onward
  cases onward

theorem walk_of_after (led : graph.after? flatten (hops + 1) position = some last) :
    ∃ walk, walk.length = hops ∧ (position.node :: walk).IsChain graph.Source ∧
      ∀ id ∈ position.node :: walk, id < graph.size := by
  induction hops generalizing position with
  | zero =>
      obtain ⟨next, onward, -⟩ := after_succ_eq_some led
      obtain ⟨node, present, -⟩ := of_hop_onward onward
      refine ⟨[], rfl, List.isChain_singleton _, ?_⟩
      rw [List.forall_mem_singleton]
      exact lt_size_of_node present
  | succ hops induction =>
      obtain ⟨next, onward, rest⟩ := after_succ_eq_some led
      obtain ⟨node, present, -, leads⟩ := of_hop_onward onward
      obtain ⟨walk, length, linked, inside⟩ := induction rest
      refine ⟨next.node :: walk, congrArg (· + 1) length, ?_, ?_⟩
      · exact List.isChain_cons_cons.2 ⟨source_of_leads present leads, linked⟩
      · rw [List.forall_mem_cons]
        exact ⟨lt_size_of_node present, inside⟩

/-- A trace is given up only below a node that came from itself. -/
theorem on_cycle_of_exhausts (exhausts : graph.Exhausts flatten position) :
    ∃ id, graph.Reaches position.node id ∧ graph.OnCycle id := by
  obtain ⟨later, led⟩ := exhausts
  obtain ⟨walk, length, linked, inside⟩ := walk_of_after led
  by_contra straight
  rw [not_exists] at straight
  -- without cycles the way meets no node twice, and it is longer than there are nodes
  have nodup : (position.node :: walk).Nodup := by
    apply nodup_walk linked
    intro id member cycle
    exact straight id ⟨reaches_of_walk linked member, cycle⟩
  have short := walk_length_le nodup inside
  rw [List.length_cons, length] at short
  omega

theorem trace_of_exhausts (exhausts : graph.Exhausts flatten position) :
    graph.trace flatten position = none := by
  obtain ⟨later, led⟩ := exhausts
  rw [Option.eq_none_iff_forall_ne_some]
  intro trace found
  obtain ⟨sooner, less, last, passed, arrived⟩ := trace_within_eq_some_iff.1 found
  have gone := after_eq_none_iff.2 ⟨sooner, less, ends_after_of_arrived passed arrived⟩
  rw [led] at gone
  cases gone

/-- The bound on the hops is never in the way of a trace just where the way does not end after more
hops than the graph has nodes. A trace that is given up on is none, and its way meets a node that
came from itself. -/
theorem bound_cuts_only_endless_iff (graph : Graph) (flatten : Flatten) (position : Position) :
    (((∀ trace, graph.Traces flatten position trace →
            graph.trace flatten position = some trace) ∧
          (graph.Exhausts flatten position → graph.Endless flatten position)) ↔
        ∀ hops, graph.EndsAfter flatten hops position → hops ≤ graph.size) ∧
      (graph.Exhausts flatten position → graph.trace flatten position = none ∧
        ∃ id, graph.Reaches position.node id ∧ graph.OnCycle id) := by
  refine ⟨⟨?_, ?_⟩, fun exhausts => ⟨trace_of_exhausts exhausts, on_cycle_of_exhausts exhausts⟩⟩
  · rintro ⟨-, endless⟩ hops ends
    by_contra long
    cases passed : graph.after? flatten (graph.size + 1) position with
    | some later =>
        obtain ⟨beyond, led⟩ := endless ⟨later, passed⟩ (hops + 1)
        rw [after_eq_none_iff.2 ⟨hops, Nat.lt_succ_self hops, ends⟩] at led
        cases led
    | none =>
        obtain ⟨sooner, less, early⟩ := after_eq_none_iff.1 passed
        obtain ⟨last, led, -⟩ := ends
        rw [after_eq_none_iff.2 ⟨sooner, by omega, early⟩] at led
        cases led
  · intro short
    constructor
    · intro trace traces
      obtain ⟨hops, last, led, arrived⟩ := traces_iff_after.1 traces
      have bound := short hops (ends_after_of_arrived led arrived)
      exact trace_within_eq_some_iff.2 ⟨hops, Nat.lt_succ_of_le bound, last, led, arrived⟩
    · rintro ⟨later, led⟩ hops
      cases passed : graph.after? flatten hops position with
      | some beyond => exact ⟨beyond, rfl⟩
      | none =>
          obtain ⟨sooner, -, ends⟩ := after_eq_none_iff.1 passed
          have bound := short sooner ends
          rw [after_eq_none_iff.2 ⟨sooner, Nat.lt_succ_of_le bound, ends⟩] at led
          cases led

/-- A file that came from itself, line by line, and at its last line from another. -/
def selfMapped : Graph where
  nodes := #[
    { path := some ⟨"/a.js"⟩
      content := some "a"
      map := some ⟨3, none, [some "a.js", some "b.js"], [], [], "AACA;AACA;ACFA", none⟩
      mappings := some
        [[⟨0, some ⟨0, 1, 0, none⟩⟩], [⟨0, some ⟨0, 2, 0, none⟩⟩], [⟨0, some ⟨1, 0, 0, none⟩⟩]]
      sources := [0, 1]
      state := .loaded },
    { path := some ⟨"/b.js"⟩
      content := some "b"
      map := none
      mappings := none
      sources := []
      state := .loaded }]
  index := [(⟨"/b.js"⟩, 1), (⟨"/a.js"⟩, 0)]

/-- The way ends after three hops, in a graph of two nodes, and the trace is given up before. -/
theorem self_mapped_cut :
    Mappings.decode "AACA;AACA;ACFA" =
        .ok [[⟨0, some ⟨0, 1, 0, none⟩⟩], [⟨0, some ⟨0, 2, 0, none⟩⟩],
          [⟨0, some ⟨1, 0, 0, none⟩⟩]] ∧
      selfMapped.Traces .full ⟨0, 0, some 0, none⟩ ⟨1, some ⟨"/b.js"⟩, 1, 0, none⟩ ∧
      selfMapped.EndsAfter .full 3 ⟨0, 0, some 0, none⟩ ∧
      selfMapped.Exhausts .full ⟨0, 0, some 0, none⟩ ∧
      ¬selfMapped.Endless .full ⟨0, 0, some 0, none⟩ ∧
      selfMapped.trace .full ⟨0, 0, some 0, none⟩ = none := by
  have arrived : selfMapped.traceWithin .full 4 ⟨0, 0, some 0, none⟩ =
      some ⟨1, some ⟨"/b.js"⟩, 1, 0, none⟩ := by decide
  have led : selfMapped.after? .full 3 ⟨0, 0, some 0, none⟩ = some ⟨1, 0, some 0, none⟩ := by
    decide
  have there : selfMapped.hop .full ⟨1, 0, some 0, none⟩ =
      .arrived ⟨1, some ⟨"/b.js"⟩, 1, 0, none⟩ := by decide
  have ends : selfMapped.EndsAfter .full 3 ⟨0, 0, some 0, none⟩ :=
    ends_after_of_arrived led there
  refine ⟨by decide, traces_of_trace_within arrived, ends, ⟨_, led⟩, ?_, by decide⟩
  intro endless
  obtain ⟨later, passed⟩ := endless 4
  rw [after_eq_none_iff.2 ⟨3, by decide, ends⟩] at passed
  cases passed

end MapChain.Graph
