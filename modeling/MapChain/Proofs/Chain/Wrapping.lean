import MapChain.Proofs.Chain.Carrying
import MapChain.Proofs.Graph.Stopping

/-!
The numbers of lines at the end of the thirty-two bits. Maps count lines from zero and traces from
one, so the last line that a map can name has no number left and is reported as line zero, from
which flattening counts back to it. Main statement: that line is the only one whose number wraps,
and a flattened map names the very line that was reached all the same.
-/

set_option autoImplicit false

namespace MapChain

def lastLine : UInt32 := 4294967295

theorem to_nat_last_line : lastLine.toNat = 4294967295 := rfl

theorem to_nat_succ_iff {line : UInt32} :
    (line + 1).toNat = line.toNat + 1 ↔ line ≠ lastLine := by
  have bound := line.toNat_lt
  rw [UInt32.toNat_add, UInt32.toNat_one, ne_eq, ← UInt32.toNat_inj, to_nat_last_line]
  omega

theorem succ_eq_zero_iff {line : UInt32} : line + 1 = 0 ↔ line = lastLine := by
  have bound := line.toNat_lt
  rw [← UInt32.toNat_inj, ← UInt32.toNat_inj, UInt32.toNat_add, UInt32.toNat_one,
    to_nat_last_line, UInt32.toNat_zero]
  omega

/-- What the line of a trace says of the place that the trace is of. -/
structure Trace.Reports (trace : Trace) (place : Position) : Prop where
  node : trace.node = place.node
  successor : trace.line.toNat = place.line.toNat + 1 ↔ place.line ≠ lastLine
  /-- From line zero there is no counting back in natural numbers. -/
  wraps : trace.line = 0 ↔ place.line = lastLine
  /-- Counting back in thirty-two bits leads to the place all the same. -/
  back : trace.line - 1 = place.line

namespace Graph

variable {graph : Graph} {flatten : Flatten} {position next last : Position} {trace : Trace}
  {node : Node} {hops : Nat}

structure EndsAt (graph : Graph) (flatten : Flatten) (position place : Position) : Prop where
  led : ∃ hops, graph.after? flatten hops position = some place
  present : ∃ node, graph.node? place.node = some node
  terminal : graph.isTerminal flatten place.node = true

/-- No map of the graph says that anything came from the last line. -/
def SparesLastLine (graph : Graph) : Prop :=
  ∀ id node lines, graph.node? id = some node → node.mappings = some lines →
    ∀ line ∈ lines, ∀ segment ∈ line, ∀ origin ∈ segment.origin, origin.line ≠ lastLine

theorem reports_of_trace (found : graph.trace flatten position = some trace) :
    ∃ place, graph.EndsAt flatten position place ∧ trace.Reports place := by
  obtain ⟨hops, -, place, led, arrived⟩ := trace_within_eq_some_iff.1 found
  obtain ⟨node, present, terminal⟩ := terminal_of_hop_arrived arrived
  rw [hop_of_terminal present terminal] at arrived
  cases arrived
  refine ⟨place, ⟨⟨hops, led⟩, ⟨node, present⟩, terminal⟩, ?_⟩
  exact ⟨rfl, to_nat_succ_iff, succ_eq_zero_iff, UInt32.add_sub_cancel place.line 1⟩

theorem line_of_leads (spares : graph.SparesLastLine)
    (present : graph.node? position.node = some node) (leads : node.Leads position next) :
    next.line ≠ lastLine := by
  cases leads with
  | exact mapped found asked begins traced source =>
      exact spares _ _ _ present mapped _ (List.mem_of_getElem? found) _ begins.mem _ traced
  | fallback mapped found missed first traced source =>
      have member := List.mem_of_mem_head? first
      exact spares _ _ _ present mapped _ (List.mem_of_getElem? found) _ member _ traced

/-- A way that starts before the last line stays before it. -/
theorem line_of_after (spares : graph.SparesLastLine) (start : position.line ≠ lastLine)
    (led : graph.after? flatten hops position = some last) : last.line ≠ lastLine := by
  induction hops generalizing position with
  | zero =>
      cases led
      exact start
  | succ hops induction =>
      obtain ⟨next, onward, rest⟩ := after_succ_eq_some led
      obtain ⟨node, present, -, leads⟩ := of_hop_onward onward
      exact induction (line_of_leads spares present leads) rest

theorem line_of_ends_at (spares : graph.SparesLastLine) (start : position.line ≠ lastLine)
    (ends : graph.EndsAt flatten position last) : last.line ≠ lastLine := by
  obtain ⟨hops, led⟩ := ends.led
  exact line_of_after spares start led

end Graph

namespace Chain

variable {chain : Chain} {flatten : Flatten} {position : Position} {trace : Trace}
  {number : UInt32} {column : Option UInt32} {options : Options} {map : SourceMap}

/-- Flattening traces from here: a segment of the root came from this position of a source. -/
def StartsAt (chain : Chain) (position : Position) : Prop :=
  ∃ node lines line segment origin child, chain.rootNode? = some node ∧
    node.mappings = some lines ∧ line ∈ lines ∧ segment ∈ line ∧ segment.origin = some origin ∧
    node.sources[origin.source.toNat]? = some child ∧
    position = ⟨child, origin.line, some origin.column, node.nameOf? origin⟩

theorem line_of_starts_at (spares : chain.graph.SparesLastLine)
    (starts : chain.StartsAt position) : position.line ≠ lastLine := by
  obtain ⟨node, lines, line, segment, origin, child, present, read, inside, member, mapped, -,
    rfl⟩ := starts
  exact spares _ _ _ present read _ inside _ member _ mapped

theorem reports_of_chain_trace (found : chain.trace flatten number column = some trace) :
    number ≠ 0 ∧ ∃ place,
      chain.graph.EndsAt flatten ⟨chain.root, number - 1, column, none⟩ place ∧
        trace.Reports place := by
  unfold Chain.trace at found
  by_cases zero : number = 0
  · rw [if_pos zero] at found
    cases found
  · rw [if_neg zero] at found
    exact ⟨zero, Graph.reports_of_trace found⟩

/-- The line that is asked for is never the last one: line numbers of the root end there. -/
theorem pred_ne_last_line (positive : number ≠ 0) : number - 1 ≠ lastLine := by
  intro last
  apply positive
  rw [← succ_eq_zero_iff.2 last, UInt32.sub_add_cancel]

theorem reports_of_mem_traces {traced : TracedLines} (whole : chain.traced? flatten = some traced)
    (member : trace ∈ traced.traces) :
    ∃ position place, chain.StartsAt position ∧ chain.graph.EndsAt flatten position place ∧
      trace.Reports place := by
  obtain ⟨⟨node, map, lines⟩, found, rfl⟩ := Option.map_eq_some_iff.1 whole
  obtain ⟨present, -, read, -⟩ := flattenable_eq_some_iff.1 found
  obtain ⟨line, inside, segment, among, origin, mapped, child, source, ends⟩ :=
    segment_of_mem_traces member
  obtain ⟨place, ending, reports⟩ := Graph.reports_of_trace ends
  have starts : chain.StartsAt ⟨child, origin.line, some origin.column, node.nameOf? origin⟩ :=
    ⟨node, lines, line, segment, origin, child, present, read, inside, among, mapped, source, rfl⟩
  exact ⟨_, place, starts, ending, reports⟩

theorem traced_of_apply (active : options.flatten ≠ .off)
    (applied : (chain.apply options).2 = some map) :
    ∃ traced, chain.traced? options.flatten = some traced ∧
      map.mappings = Mappings.encode traced.mappings := by
  obtain ⟨node, rootMap, lines, found, -, -, same⟩ := of_apply active applied
  refine ⟨chain.graph.traceLines options.flatten node lines, ?_, ?_⟩
  · rw [traced?, found]
    rfl
  · rw [same]
    rfl

/-- The line of a trace is the successor of the line reached, and flattening counts back from it
without wrapping, unless that line is the last one; then both wrap, and the flattened map names
the line reached all the same. Where no map names the last line, nothing wraps. -/
theorem only_last_line_wraps (chain : Chain) :
    (∀ flatten number column trace, chain.trace flatten number column = some trace →
        ∃ place, chain.graph.EndsAt flatten ⟨chain.root, number - 1, column, none⟩ place ∧
          trace.Reports place) ∧
      (∀ options map, options.flatten ≠ .off → (chain.apply options).2 = some map →
        ∃ traced, chain.traced? options.flatten = some traced ∧
          map.mappings = Mappings.encode traced.mappings ∧
          ∀ trace ∈ traced.traces, ∃ position place, chain.StartsAt position ∧
            chain.graph.EndsAt options.flatten position place ∧ trace.Reports place) ∧
      (chain.graph.SparesLastLine →
        (∀ flatten number column trace, chain.trace flatten number column = some trace →
          trace.line ≠ 0) ∧
        ∀ flatten traced trace, chain.traced? flatten = some traced → trace ∈ traced.traces →
          trace.line ≠ 0) := by
  refine ⟨?_, ?_, ?_⟩
  · intro flatten number column trace found
    exact (reports_of_chain_trace found).2
  · intro options map active applied
    obtain ⟨traced, whole, mappings⟩ := traced_of_apply active applied
    exact ⟨traced, whole, mappings, fun trace member => reports_of_mem_traces whole member⟩
  · intro spares
    constructor
    · intro flatten number column trace found zero
      obtain ⟨positive, place, ends, reports⟩ := reports_of_chain_trace found
      have inside := Graph.line_of_ends_at spares (pred_ne_last_line positive) ends
      exact inside (reports.wraps.1 zero)
    · intro flatten traced trace whole member zero
      obtain ⟨position, place, starts, ends, reports⟩ := reports_of_mem_traces whole member
      have inside := Graph.line_of_ends_at spares (line_of_starts_at spares starts) ends
      exact inside (reports.wraps.1 zero)

theorem three_files_spare_last_line : threeFiles.graph.SparesLastLine := by
  intro id node lines present read
  match id with
  | 0 | 1 =>
      cases present
      cases read
      decide
  | 2 =>
      cases present
      cases read
  | _ + 3 => cases present

theorem three_files_lines_exact :
    threeFiles.graph.SparesLastLine ∧
      threeFiles.trace .full 1 (some 0) = some ⟨2, some ⟨"/first.js"⟩, 2, 2, some "outer"⟩ ∧
      (∃ place, threeFiles.graph.EndsAt .full ⟨0, 0, some 0, none⟩ place ∧
        place.line.toNat + 1 = 2) ∧
      ({} : Options).flatten ≠ .off ∧ (∃ map, (threeFiles.apply {}).2 = some map) ∧
      ∃ traced trace, threeFiles.traced? .full = some traced ∧ trace ∈ traced.traces ∧
        trace.line ≠ 0 := by
  have traced : threeFiles.trace .full 1 (some 0) =
      some ⟨2, some ⟨"/first.js"⟩, 2, 2, some "outer"⟩ := by decide
  have active : ({} : Options).flatten ≠ .off := by decide
  have spares := three_files_spare_last_line
  obtain ⟨map, applied⟩ : ∃ map, (threeFiles.apply {}).2 = some map := ⟨_, rfl⟩
  obtain ⟨single, flattened, spared⟩ := only_last_line_wraps threeFiles
  obtain ⟨place, ends, reports⟩ := single _ _ _ _ traced
  have successor := reports.successor.2 (reports.wraps.not.1 ((spared spares).1 _ _ _ _ traced))
  obtain ⟨lines, whole, -, -⟩ := flattened _ _ active applied
  have member : ⟨2, some ⟨"/first.js"⟩, 2, 2, some "outer"⟩ ∈ lines.traces := by
    rw [← Option.some_inj.1 whole]
    decide
  exact ⟨spares, traced, ⟨place, ends, successor.symm⟩, active, ⟨map, applied⟩, lines, _, whole,
    member, (spared spares).2 _ _ _ whole member⟩

def farDown : Chain where
  graph :=
    { nodes := #[
        { path := some ⟨"/out.js"⟩
          content := some "a"
          map := some ⟨3, none, [some "in.js"], [], [], "AA+/////HA", none⟩
          mappings := some [[⟨0, some ⟨0, 4294967295, 0, none⟩⟩]]
          sources := [1]
          state := .loaded },
        { path := some ⟨"/in.js"⟩
          content := some "b"
          map := none
          mappings := none
          sources := []
          state := .loaded }]
      index := [(⟨"/in.js"⟩, 1), (⟨"/out.js"⟩, 0)] }
  root := 0
  untraceable := 0
  directory := ⟨"/"⟩

theorem far_down_decoded : farDown.graph.Decoded := by
  intro id node map lines present mapped read
  match id with
  | 0 =>
      cases present
      cases mapped
      cases read
      decide
  | 1 =>
      cases present
      cases mapped
  | _ + 2 => cases present

theorem far_down_ends_at :
    farDown.graph.EndsAt .full ⟨0, 0, some 0, none⟩ ⟨1, lastLine, some 0, none⟩ :=
  ⟨⟨1, by decide⟩, ⟨_, rfl⟩, by decide⟩

/-- The last line is reported as line zero, and flattening counts back from there. -/
theorem last_line_wraps :
    farDown.graph.Decoded ∧
      farDown.graph.EndsAt .full ⟨0, 0, some 0, none⟩ ⟨1, lastLine, some 0, none⟩ ∧
      farDown.trace .full 1 (some 0) = some ⟨1, some ⟨"/in.js"⟩, 0, 0, none⟩ ∧
      (farDown.traced? .full).map (·.traces) = some [⟨1, some ⟨"/in.js"⟩, 0, 0, none⟩] ∧
      (farDown.traced? .full).map (·.mappings) = some [[⟨0, some ⟨0, lastLine, 0, none⟩⟩]] ∧
      (¬∀ (chain : Chain) flatten number column trace place, chain.graph.Decoded →
        chain.trace flatten number column = some trace →
        chain.graph.EndsAt flatten ⟨chain.root, number - 1, column, none⟩ place →
        trace.line.toNat = place.line.toNat + 1) ∧
      ¬∀ (chain : Chain) flatten traced trace, chain.graph.Decoded →
        chain.traced? flatten = some traced → trace ∈ traced.traces → 1 ≤ trace.line.toNat := by
  have traced : farDown.trace .full 1 (some 0) = some ⟨1, some ⟨"/in.js"⟩, 0, 0, none⟩ := by
    decide
  have traces : (farDown.traced? .full).map (·.traces) =
      some [⟨1, some ⟨"/in.js"⟩, 0, 0, none⟩] := by decide
  refine ⟨far_down_decoded, far_down_ends_at, traced, traces, by decide, ?_, ?_⟩
  · intro successor
    have wrong := successor farDown .full 1 (some 0) _ _ far_down_decoded traced far_down_ends_at
    exact absurd wrong (by decide)
  · intro positive
    obtain ⟨lines, whole, same⟩ := Option.map_eq_some_iff.1 traces
    have wrong := positive farDown .full lines _ far_down_decoded whole
      (same ▸ List.mem_singleton_self _)
    exact absurd wrong (by decide)

end Chain

end MapChain
