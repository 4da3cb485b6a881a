import MapChain.Proofs.Chain.Flattening

/-!
A chain whose root carries its flattened map in place of its own. Main statement: every position
that the root maps at its very column is traced to the same place by one hop as by many.
-/

set_option autoImplicit false

namespace MapChain

variable {graph : Graph} {flatten : Flatten} {node : Node} {sources : List NodeId}
  {names : List String}

/-- The chain whose root has another map. The other nodes stay as they are. -/
def Chain.carrying (chain : Chain) (map : SourceMap) (lines : Mappings) (sources : List NodeId) :
    Chain :=
  { chain with
    graph := chain.graph.modify chain.root fun node =>
      { node with map := some map, mappings := some lines, sources := sources } }

/-- The root has a segment with an origin at the very column. Lines count from one. -/
def Chain.MapsAt (chain : Chain) (number column : UInt32) : Prop :=
  ∃ node lines line segment, chain.rootNode? = some node ∧ node.mappings = some lines ∧
    lines[(number - 1).toNat]? = some line ∧ line.Begins column segment ∧
    segment.origin.isSome = true

theorem Graph.content_of_modify {id : NodeId} {change : Node → Node}
    (kept : ∀ node, (change node).content = node.content) (other : NodeId) :
    (graph.modify id change).hasContent other = graph.hasContent other := by
  unfold hasContent
  by_cases same : other = id
  · subst same
    rw [node_modify_self]
    cases graph.node? other with
    | none => rfl
    | some node => simp [kept]
  · rw [node_modify_of_ne graph change same]

theorem Graph.is_terminal_of_modify {id other : NodeId} {change : Node → Node}
    (kept : ∀ node, (change node).content = node.content) (different : other ≠ id) :
    (graph.modify id change).isTerminal flatten other = graph.isTerminal flatten other := by
  have contents : (graph.modify id change).hasContent = graph.hasContent :=
    funext fun node => content_of_modify kept node
  unfold isTerminal hasCompleteContent
  rw [node_modify_of_ne graph change different, contents]

theorem FlatLine.begins {line flat : Line} {lost : Nat} {column : UInt32} {segment : Segment}
    {origin : Origin} {trace : Trace}
    (flattened : FlatLine graph flatten node sources names line flat lost)
    (begins : line.Begins column segment) (mapped : segment.origin = some origin)
    (ends : graph.Ends flatten node origin trace) :
    ∃ new place, flat.Begins column new ∧ Stands sources names segment trace new place := by
  induction flattened with
  | nil =>
      obtain ⟨before, after, whole, -⟩ := begins
      simp at whole
  | bare bare rest induction =>
      rcases Line.begins_cons_iff.1 begins with ⟨rfl, -⟩ | ⟨-, later⟩
      · rw [bare] at mapped
        cases mapped
      · exact induction later
  | lost other astray rest induction =>
      rcases Line.begins_cons_iff.1 begins with ⟨rfl, -⟩ | ⟨-, later⟩
      · rw [other] at mapped
        cases mapped
        exact absurd ends (astray trace)
      · exact induction later
  | kept other reached stands rest induction =>
      rcases Line.begins_cons_iff.1 begins with ⟨rfl, here⟩ | ⟨below, later⟩
      · rw [other] at mapped
        cases mapped
        rw [Graph.ends_unique reached ends] at stands
        refine ⟨_, _, Line.begins_cons_iff.2 (Or.inl ⟨rfl, ?_⟩), stands⟩
        rw [stands.generated, here]
      · obtain ⟨new, place, found, stood⟩ := induction later
        refine ⟨new, place, Line.begins_cons_iff.2 (Or.inr ⟨?_, found⟩), stood⟩
        rw [stands.generated]
        exact below

theorem Stands.name_of {old new : Segment} {place : Origin} {trace : Trace} {root : Node}
    {map : SourceMap} (stands : Stands sources names old trace new place)
    (carried : root.map = some map) (renamed : map.names = names)
    (fewNames : names.length ≤ UInt32.size) : root.nameOf? place = trace.name := by
  simp only [Node.nameOf?, SourceMap.name?, carried, Option.bind_some, renamed]
  exact Numbers.bind_get fewNames stands.name

/-- What a segment that stands for another leads to is the end itself. -/
theorem Stands.leads {old new : Segment} {place : Origin} {trace : Trace} {column : UInt32}
    {number : UInt32} {line : Line} {lines : Mappings} {root : Node} {map : SourceMap}
    (start : NodeId) (stands : Stands sources names old trace new place)
    (carried : root.map = some map) (read : root.mappings = some lines)
    (reordered : root.sources = sources) (renamed : map.names = names)
    (fewSources : sources.length ≤ UInt32.size) (fewNames : names.length ≤ UInt32.size)
    (found : lines[number.toNat]? = some line) (begins : line.Begins column new) :
    root.Leads ⟨start, number, some column, none⟩
      ⟨trace.node, trace.line - 1, some trace.column, trace.name⟩ := by
  have source : root.sources[place.source.toNat]? = some trace.node := by
    rw [reordered]
    exact stands.source.get fewSources
  have name : root.nameOf? place = trace.name := stands.name_of carried renamed fewNames
  have leads : root.Leads ⟨start, number, some column, none⟩
      ⟨trace.node, place.line, some place.column, (root.nameOf? place).or none⟩ :=
    .exact read found rfl begins stands.traced source
  rw [name, Option.or_none, stands.line, stands.column] at leads
  exact leads

theorem segment_of_mem_traces {lines : Mappings} {trace : Trace}
    (member : trace ∈ (graph.traceLines flatten node lines).traces) :
    ∃ line ∈ lines, ∃ segment ∈ line, ∃ origin, segment.origin = some origin ∧
      graph.Ends flatten node origin trace := by
  obtain ⟨traced, inside, rfl⟩ := List.mem_map.1 member
  obtain ⟨reached, listed, found⟩ := List.mem_flatten.1 inside
  obtain ⟨attempts, tried, rfl⟩ := List.mem_map.1 listed
  obtain ⟨line, among, rfl⟩ := List.mem_map.1 tried
  obtain ⟨attempt, here, shown⟩ := List.mem_flatMap.1 found
  obtain ⟨segment, kept, rfl⟩ := List.mem_map.1 here
  obtain ⟨origin, mapped, -, ends⟩ := Graph.of_trace_segment (Option.mem_toList.1 shown)
  exact ⟨line, among, segment, List.mem_of_mem_filter kept, origin, mapped, ends⟩

theorem ends_of_mem_traces {lines : Mappings} {trace : Trace}
    (member : trace ∈ (graph.traceLines flatten node lines).traces) :
    ∃ origin, graph.Ends flatten node origin trace := by
  obtain ⟨line, -, segment, -, origin, -, ends⟩ := segment_of_mem_traces member
  exact ⟨origin, ends⟩

namespace Graph

/-- Under the existing policy an inner node has content wherever a way from it ends. -/
theorem has_content_of_ends {id : NodeId} {origin : Origin} {trace : Trace}
    (present : graph.node? id = some node) (inner : graph.isTerminal .existing id = false)
    (ends : graph.Ends .existing node origin trace) : graph.hasContent trace.node = true := by
  obtain ⟨child, source, found⟩ := ends
  obtain ⟨same, there, -, -, -, complete⟩ := is_terminal_eq_false_iff.1 inner
  rw [present] at there
  cases there
  have content := complete rfl child (List.mem_of_getElem? source)
  exact has_content_of_traces (traces_of_trace_within found) content

theorem ends_of_trace {id : NodeId} {number column : UInt32} {lines : Mappings} {line : Line}
    {segment : Segment} {origin : Origin} {trace : Trace} (present : graph.node? id = some node)
    (inner : graph.isTerminal flatten id = false) (read : node.mappings = some lines)
    (found : lines[number.toNat]? = some line) (begins : line.Begins column segment)
    (mapped : segment.origin = some origin)
    (traced : graph.trace flatten ⟨id, number, some column, none⟩ = some trace) :
    graph.Ends flatten node origin trace := by
  rw [Graph.trace, traceWithin] at traced
  cases step : graph.hop flatten ⟨id, number, some column, none⟩ with
  | unmapped =>
      rw [step] at traced
      cases traced
  | arrived reached =>
      have ended := of_hop_arrived step
      cases ended with
      | arrived _ terminal =>
          rw [inner] at terminal
          cases terminal
      | onward there other leads rest =>
          rw [hop_of_leads there other leads] at step
          cases step
  | onward next =>
      rw [step] at traced
      obtain ⟨same, there, -, leads⟩ := of_hop_onward step
      rw [present] at there
      cases there
      cases leads with
      | fallback mappings line' missed =>
          rw [read] at mappings
          cases mappings
          rw [found] at line'
          cases line'
          exact absurd begins (missed column rfl segment)
      | exact mappings line' asked begins' mapped' source =>
          rw [read] at mappings
          cases mappings
          rw [found] at line'
          cases line'
          cases asked
          have first := Line.at_eq_some_iff.2 begins
          rw [Line.at_eq_some_iff.2 begins'] at first
          cases first
          rw [mapped] at mapped'
          cases mapped'
          rw [Option.or_none] at traced
          exact ⟨_, source, trace_within_succ traced⟩

theorem trace_of_two_hops {position next : Position} {last : Node}
    (present : graph.node? position.node = some node)
    (inner : graph.isTerminal flatten position.node = false) (leads : node.Leads position next)
    (there : graph.node? next.node = some last)
    (terminal : graph.isTerminal flatten next.node = true) :
    graph.trace flatten position =
      some ⟨next.node, last.path, next.line + 1, next.column.getD 0, next.name⟩ := by
  have positive : 0 < graph.size := Nat.lt_of_le_of_lt (Nat.zero_le _) (lt_size_of_node present)
  obtain ⟨hops, size⟩ : ∃ hops, graph.size = hops + 1 := ⟨graph.size - 1, by omega⟩
  rw [Graph.trace, traceWithin, hop_of_leads present inner leads, size]
  simp only
  rw [traceWithin, hop_of_terminal there terminal]

end Graph

namespace Chain

variable {chain : Chain} {options : Options} {map : SourceMap}

theorem carried_root {map : SourceMap} {lines : Mappings} {root : Node}
    (present : chain.rootNode? = some root) :
    (chain.carrying map lines sources).graph.node? chain.root =
      some { root with map := some map, mappings := some lines, sources := sources } := by
  have there : chain.graph.node? chain.root = some root := present
  rw [carrying, Graph.node_modify_self, there]
  rfl

theorem carried_content (chain : Chain) (map : SourceMap) (lines : Mappings)
    (sources : List NodeId) (id : NodeId) :
    (chain.carrying map lines sources).graph.hasContent id = chain.graph.hasContent id := by
  apply Graph.content_of_modify
  intro node
  rfl

theorem carried_inner {lines : Mappings} {root : Node} (present : chain.rootNode? = some root)
    (filled : sources ≠ [])
    (complete : flatten = .existing → ∀ id ∈ sources, chain.graph.hasContent id = true) :
    (chain.carrying map lines sources).graph.isTerminal flatten chain.root = false := by
  refine Graph.is_terminal_eq_false_iff.2 ⟨_, carried_root present, rfl, rfl, filled, ?_⟩
  intro existing id member
  rw [carried_content]
  exact complete existing id member

/-- A node where a way from an inner root ends is no root, and so the same in the new chain. -/
theorem carried_end (map : SourceMap) (lines : Mappings) (sources : List NodeId) {trace : Trace}
    {position : Position} (inner : chain.graph.isTerminal flatten chain.root = false)
    (traces : chain.graph.Traces flatten position trace) :
    ∃ last, (chain.carrying map lines sources).graph.node? trace.node = some last ∧
      trace.source = last.path ∧
      (chain.carrying map lines sources).graph.isTerminal flatten trace.node = true := by
  obtain ⟨last, there, source, terminal⟩ := Graph.terminal_of_traces traces
  have different : trace.node ≠ chain.root := by
    intro same
    rw [same, inner] at terminal
    cases terminal
  refine ⟨last, ?_, source, ?_⟩
  · rw [carrying, Graph.node_modify_of_ne chain.graph _ different]
    exact there
  · have kept : (chain.carrying map lines sources).graph.isTerminal flatten trace.node =
        chain.graph.isTerminal flatten trace.node := by
      apply Graph.is_terminal_of_modify _ different
      intro node
      rfl
    rw [kept]
    exact terminal

theorem trace_carrying_of_flat_lines {root : Node} {lines flats : Mappings} {lost : Nat}
    {number column : UInt32} {trace : Trace}
    (present : chain.rootNode? = some root) (read : root.mappings = some lines)
    (inner : chain.graph.isTerminal flatten chain.root = false)
    (flat : FlatLines chain.graph flatten root sources map.names lines flats lost)
    (complete : flatten = .existing → ∀ id ∈ sources, chain.graph.hasContent id = true)
    (fewSources : sources.length ≤ UInt32.size) (fewNames : map.names.length ≤ UInt32.size)
    (mapsAt : chain.MapsAt number column)
    (traced : chain.trace flatten number (some column) = some trace) :
    (chain.carrying map flats sources).trace flatten number (some column) = some trace := by
  obtain ⟨node, itsLines, line, segment, there, itsRead, found, begins, withOrigin⟩ := mapsAt
  obtain ⟨origin, mapped⟩ := Option.isSome_iff_exists.1 withOrigin
  rw [present] at there
  cases there
  rw [read] at itsRead
  cases itsRead
  by_cases zero : number = 0
  · rw [Chain.trace, if_pos zero] at traced
    cases traced
  rw [Chain.trace, if_neg zero] at traced ⊢
  have ends := Graph.ends_of_trace present inner read found begins mapped traced
  obtain ⟨new, lost, foundFlat, flatLine⟩ := flat.line_of_get found
  obtain ⟨fresh, place, beginsFlat, stands⟩ := flatLine.begins begins mapped ends
  have filled : sources ≠ [] := List.ne_nil_of_mem stands.source.mem
  let carried : Node := { root with map := map, mappings := flats, sources := sources }
  have leads : carried.Leads ⟨chain.root, number - 1, some column, none⟩ _ :=
    stands.leads chain.root rfl rfl rfl rfl fewSources fewNames foundFlat beginsFlat
  obtain ⟨last, lastThere, source, terminal⟩ :=
    carried_end map flats sources inner (Graph.traces_of_trace_within traced)
  rw [show (chain.carrying map flats sources).root = chain.root from rfl,
    Graph.trace_of_two_hops (carried_root present) (carried_inner present filled complete) leads
      lastThere terminal, UInt32.sub_add_cancel, ← source]
  rfl

/-- A position is traced alike in the flattened map, as long as the thirty-two bits of an index can
count its sources and its names. -/
theorem trace_carrying (active : options.flatten ≠ .off)
    (applied : (chain.apply options).2 = some map)
    (fewSources : map.sources.length ≤ UInt32.size) (fewNames : map.names.length ≤ UInt32.size) :
    ∃ lines, Mappings.decode map.mappings = .ok lines ∧
      map.sources = (chain.flatSources options.flatten).map (chain.renderSource options) ∧
      ∀ number column trace, chain.MapsAt number column →
        chain.trace options.flatten number (some column) = some trace →
        (chain.carrying map lines (chain.flatSources options.flatten)).trace options.flatten number
          (some column) = some trace := by
  obtain ⟨node, rootMap, lines, found, -, sources, same⟩ := of_apply active applied
  obtain ⟨present, mapped, read, inner⟩ := flattenable_eq_some_iff.1 found
  rw [if_neg active] at inner
  have flat : FlatLines chain.graph options.flatten node _ _ lines _ _ :=
    flat_lines_of_mappings lines
  have complete : options.flatten = .existing →
      ∀ id ∈ chain.flatSources options.flatten, chain.graph.hasContent id = true := by
    intro existing id member
    rw [sources, TracedLines.sources, List.mem_eraseDups] at member
    obtain ⟨trace, reached, rfl⟩ := List.mem_map.1 member
    obtain ⟨origin, ends⟩ := ends_of_mem_traces reached
    rw [existing] at inner ends
    exact Graph.has_content_of_ends present inner ends
  have rendered : map.sources =
      (chain.flatSources options.flatten).map (chain.renderSource options) := by
    rw [same, sources]
    rfl
  rw [rendered, List.length_map] at fewSources
  by_cases empty : (chain.graph.traceLines options.flatten node lines).mappings = []
  · -- A root without lines maps no position.
    refine ⟨[[]], ?_, rendered, ?_⟩
    · rw [same, mapOf, empty]
      exact Mappings.decode_encode_nil
    · rintro number column trace ⟨_, _, _, _, there, itsRead, line, -⟩
      rw [present] at there
      cases there
      rw [read] at itsRead
      cases itsRead
      have none := flat.length_eq
      rw [empty, List.length_nil] at none
      rw [List.length_eq_zero_iff.1 none.symm] at line
      cases line
  · refine ⟨(chain.graph.traceLines options.flatten node lines).mappings, ?_, rendered, ?_⟩
    · rw [same]
      exact Mappings.decode_encode_of_ne_nil empty
    · intro number column trace mapsAt traced
      rw [← sources] at flat
      have names : map.names = (chain.graph.traceLines options.flatten node lines).names := by
        rw [same]
        rfl
      rw [← names] at flat
      exact trace_carrying_of_flat_lines present read inner flat complete fewSources fewNames
        mapsAt traced

theorem three_files_carry :
    ∃ map lines, (threeFiles.apply {}).2 = some map ∧ map.sources.length ≤ UInt32.size ∧
      map.names.length ≤ UInt32.size ∧ Mappings.decode map.mappings = .ok lines ∧
      threeFiles.MapsAt 1 0 ∧
      threeFiles.trace .full 1 (some 0) = some ⟨2, some ⟨"/first.js"⟩, 2, 2, some "outer"⟩ ∧
      (threeFiles.carrying map lines (threeFiles.flatSources .full)).trace .full 1 (some 0) =
        some ⟨2, some ⟨"/first.js"⟩, 2, 2, some "outer"⟩ := by
  obtain ⟨map, applied, fewSources, fewNames⟩ :
      ∃ map, (threeFiles.apply {}).2 = some map ∧ map.sources.length ≤ UInt32.size ∧
        map.names.length ≤ UInt32.size :=
    ⟨_, rfl, by decide, by decide⟩
  have mapsAt : threeFiles.MapsAt 1 0 :=
    ⟨_, _, _, _, rfl, rfl, rfl, Line.at_eq_some_iff.1 rfl, rfl⟩
  have traced : threeFiles.trace .full 1 (some 0) =
      some ⟨2, some ⟨"/first.js"⟩, 2, 2, some "outer"⟩ := by decide
  obtain ⟨lines, decoded, -, alike⟩ := trace_carrying (by decide) applied fewSources fewNames
  exact ⟨map, lines, applied, fewSources, fewNames, decoded, mapsAt, traced,
    alike 1 0 _ mapsAt traced⟩

end Chain

end MapChain
