import MapChain.Proofs.Chain.Contents
import MapChain.Proofs.Graph.Stopping

/-!
The two policies of flattening side by side. Main statement: what can be traced to the deepest
source can be traced to the last file with all contents, at a place on the same way, so under the
existing policy a flattened map keeps every segment that it keeps under the full one.
-/

set_option autoImplicit false

namespace MapChain

variable {graph : Graph} {node : Node} {sources others : List NodeId} {names terms : List String}
  {chain : Chain}

def Graph.Retains (graph : Graph) (flatten : Flatten) (node : Node) (segment : Segment) : Prop :=
  ∃ origin trace, segment.origin = some origin ∧ graph.Ends flatten node origin trace

theorem Graph.ends_existing {origin : Origin} {trace : Trace}
    (ends : graph.Ends .full node origin trace) :
    ∃ stop, graph.Ends .existing node origin stop := by
  rcases ends with ⟨child, source, found⟩
  rcases stops_of_trace_within found with ⟨hops, less, place, last, stops, -⟩
  exact ⟨_, child, source, trace_existing_of_stops less stops⟩

theorem Graph.retains_existing {segment : Segment} (retains : graph.Retains .full node segment) :
    graph.Retains .existing node segment := by
  rcases retains with ⟨origin, trace, mapped, ends⟩
  rcases ends_existing ends with ⟨stop, reached⟩
  exact ⟨origin, stop, mapped, reached⟩

def Line.columns (line : Line) : List UInt32 := line.map (·.generatedColumn)

/-- Of one line the existing policy loses no more than the full policy does. -/
theorem FlatLine.keeps_existing {line flat stop : Line} {lost missed : Nat}
    (full : FlatLine graph .full node sources names line flat lost)
    (existing : FlatLine graph .existing node others terms line stop missed) :
    (Line.columns flat).Sublist (Line.columns stop) ∧ missed ≤ lost := by
  induction full generalizing stop missed with
  | nil =>
      cases existing
      exact ⟨List.Sublist.refl _, Nat.le_refl _⟩
  | bare bare rest induction =>
      cases existing with
      | bare _ later => exact induction later
      | lost mapped _ _ | kept mapped _ _ _ =>
          rw [bare] at mapped
          cases mapped
  | lost mapped astray rest induction =>
      cases existing with
      | bare bare _ =>
          rw [bare] at mapped
          cases mapped
      | lost _ _ later =>
          have fewer := induction later
          exact ⟨fewer.1, Nat.succ_le_succ fewer.2⟩
      | kept _ _ _ later =>
          have fewer := induction later
          exact ⟨fewer.1.cons _, Nat.le_succ_of_le fewer.2⟩
  | kept mapped ends stands rest induction =>
      cases existing with
      | bare bare _ =>
          rw [bare] at mapped
          cases mapped
      | lost other astray _ =>
          rw [mapped] at other
          cases other
          rcases Graph.ends_existing ends with ⟨place, reached⟩
          exact absurd reached (astray place)
      | kept _ _ stood later =>
          have fewer := induction later
          refine ⟨?_, fewer.2⟩
          simp only [Line.columns, List.map_cons, stands.generated, stood.generated]
          exact fewer.1.cons_cons _

theorem FlatLines.keeps_existing {lines flats stops : Mappings} {lost missed : Nat}
    (full : FlatLines graph .full node sources names lines flats lost)
    (existing : FlatLines graph .existing node others terms lines stops missed) :
    List.Forall₂ (fun flat stop => (Line.columns flat).Sublist (Line.columns stop)) flats stops ∧
      missed ≤ lost := by
  induction full generalizing stops missed with
  | nil =>
      cases existing
      exact ⟨.nil, Nat.le_refl _⟩
  | cons first rest induction =>
      cases existing with
      | cons other others =>
          have here := first.keeps_existing other
          have below := induction others
          exact ⟨.cons here.1 below.1, Nat.add_le_add here.2 below.2⟩

theorem Chain.lines_of_apply {options : Options} {map : SourceMap}
    (active : options.flatten ≠ .off) (applied : (chain.apply options).2 = some map) :
    ∃ node lines flats, chain.rootNode? = some node ∧ node.mappings = some lines ∧
      map.mappings = Mappings.encode flats ∧
      FlatLines chain.graph options.flatten node (chain.flatSources options.flatten) map.names
        lines flats (chain.apply options).1.untraceable := by
  rcases of_apply active applied with ⟨node, rootMap, lines, found, count, sources, same⟩
  rcases flattenable_eq_some_iff.1 found with ⟨present, -, read, -⟩
  refine ⟨node, lines, (chain.graph.traceLines options.flatten node lines).mappings, present, read,
    ?_, ?_⟩
  · rw [same]
    rfl
  · rw [count, sources, same]
    exact flat_lines_of_mappings lines

/-- Where the full policy finds an end, the existing policy ends the way at a place that it passes.
A chain that is flattened under either policy keeps every segment under the existing policy that it
keeps under the full one, and has no more untraceable ones. -/
theorem existing_keeps_more :
    (∀ graph position trace, Graph.trace graph .full position = some trace →
        ∃ hops place node, graph.after? .full hops position = some place ∧
          graph.Traces .full place trace ∧ graph.node? place.node = some node ∧
          graph.trace .existing position =
            some ⟨place.node, node.path, place.line + 1, place.column.getD 0, place.name⟩) ∧
      ∀ (chain : Chain) (full existing : Options) map other,
        full.flatten = .full → existing.flatten = .existing →
        (chain.apply full).2 = some map → (chain.apply existing).2 = some other →
        ∃ node lines flats stops, chain.rootNode? = some node ∧ node.mappings = some lines ∧
          map.mappings = Mappings.encode flats ∧ other.mappings = Mappings.encode stops ∧
          FlatLines chain.graph .full node (chain.flatSources .full) map.names lines flats
            (chain.apply full).1.untraceable ∧
          FlatLines chain.graph .existing node (chain.flatSources .existing) other.names lines
            stops (chain.apply existing).1.untraceable ∧
          (∀ segment, chain.graph.Retains .full node segment →
            chain.graph.Retains .existing node segment) ∧
          List.Forall₂ (fun flat stop => (Line.columns flat).Sublist (Line.columns stop)) flats
            stops ∧
          (chain.apply existing).1.untraceable ≤ (chain.apply full).1.untraceable := by
  constructor
  · intro graph position trace found
    rcases Graph.stops_of_trace_within found with ⟨hops, less, place, node, stops, rest⟩
    exact ⟨hops, place, node, stops.passed, rest, stops.present,
      Graph.trace_existing_of_stops less stops⟩
  · intro chain full existing map other deep shallow applied stopped
    have deepActive : full.flatten ≠ .off := by
      rw [deep]
      decide
    have shallowActive : existing.flatten ≠ .off := by
      rw [shallow]
      decide
    have flattened := Chain.lines_of_apply deepActive applied
    have halted := Chain.lines_of_apply shallowActive stopped
    rw [deep] at flattened
    rw [shallow] at halted
    rcases flattened with ⟨node, lines, flats, present, read, written, flat⟩
    rcases halted with ⟨root, rows, stops, there, shown, noted, stop⟩
    rw [present, Option.some.injEq] at there
    subst there
    rw [read, Option.some.injEq] at shown
    subst shown
    have fewer := flat.keeps_existing stop
    exact ⟨node, lines, flats, stops, present, read, written, noted, flat, stop,
      fun _ => Graph.retains_existing, fewer.1, fewer.2⟩

/-- The way of the second segment ends above the file without content, and nowhere under the full
policy. -/
theorem lost_first_keeps_more :
    Chain.lostFirst.graph.trace .full ⟨0, 0, some 0, none⟩ =
        some ⟨2, some ⟨"/first.js"⟩, 1, 0, none⟩ ∧
      (∃ hops place, Chain.lostFirst.graph.after? .full hops ⟨0, 0, some 0, none⟩ = some place ∧
        place.node = 1 ∧
        Chain.lostFirst.graph.Traces .full place ⟨2, some ⟨"/first.js"⟩, 1, 0, none⟩) ∧
      (Chain.lostFirst.apply { flatten := .full }).1.untraceable = 1 ∧
      (Chain.lostFirst.apply { flatten := .existing }).1.untraceable = 0 ∧
      ∃ map other flats stops, (Chain.lostFirst.apply { flatten := .full }).2 = some map ∧
        (Chain.lostFirst.apply { flatten := .existing }).2 = some other ∧
        map.mappings = Mappings.encode flats ∧ other.mappings = Mappings.encode stops ∧
        List.Forall₂ (fun flat stop => (Line.columns flat).Sublist (Line.columns stop)) flats
          stops := by
  have found : Chain.lostFirst.graph.trace .full ⟨0, 0, some 0, none⟩ =
      some ⟨2, some ⟨"/first.js"⟩, 1, 0, none⟩ := by decide
  have above : Chain.lostFirst.graph.trace .existing ⟨0, 0, some 0, none⟩ =
      some ⟨1, some ⟨"/middle.js"⟩, 1, 0, none⟩ := by decide
  have deep : ∃ map, (Chain.lostFirst.apply { flatten := .full }).2 = some map := ⟨_, rfl⟩
  have shallow : ∃ other, (Chain.lostFirst.apply { flatten := .existing }).2 = some other :=
    ⟨_, rfl⟩
  rcases deep with ⟨map, applied⟩
  rcases shallow with ⟨other, stopped⟩
  have place := existing_keeps_more.1 _ _ _ found
  have kept := existing_keeps_more.2 Chain.lostFirst { flatten := .full } { flatten := .existing }
    map other rfl rfl applied stopped
  rcases place with ⟨hops, place, node, passed, rest, -, same⟩
  rw [above, Option.some.injEq, Trace.mk.injEq] at same
  rcases kept with ⟨-, -, flats, stops, -, -, written, noted, -, -, -, columns, -⟩
  exact ⟨found, ⟨hops, place, passed, same.1.symm, rest⟩, by decide, by decide, map, other, flats,
    stops, applied, stopped, written, noted, columns⟩

end MapChain
