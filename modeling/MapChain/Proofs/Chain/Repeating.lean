import MapChain.Proofs.Chain.Contents
import MapChain.Proofs.Chain.Numbering
import MapChain.Proofs.Chain.Shallow

/-!
Flattening what is flat. The nodes that segments were traced to are terminal, so a root that carries
its flattened map is traced to the same nodes by one hop, and they turn up in the same order. Main
statement: flattening such a root gives the same map again.
-/

set_option autoImplicit false

namespace MapChain

variable {graph : Graph} {flatten : Flatten} {node : Node} {chain : Chain} {options : Options}
  {map : SourceMap}

theorem TracedLines.mappings_ne_nil {traced : TracedLines} (filled : traced.sources ≠ []) :
    traced.mappings ≠ [] := by
  intro empty
  have none : traced.lines = [] := List.map_eq_nil_iff.1 empty
  apply filled
  rw [sources, traces, none]
  rfl

namespace Graph

/-- Where each written segment is traced to what it was written for, the lines are read back and
nothing is lost. -/
theorem trace_lines_of_fixed {write : TracedSegment → Segment} (lines : List (List TracedSegment))
    (mapped : ∀ reached, (write reached).origin.isSome = true)
    (fixed : ∀ line ∈ lines, ∀ reached ∈ line,
      graph.traceSegment flatten node (write reached) = some reached) :
    graph.traceLines flatten node (lines.map (·.map write)) = ⟨lines, 0⟩ := by
  have attempts : (lines.map (·.map write)).map (graph.traceLine flatten node) =
      lines.map (·.map some) := by
    rw [List.map_map]
    apply List.map_congr_left
    intro line inside
    have whole : (line.map write).filter (·.origin.isSome) = line.map write := by
      apply List.filter_eq_self.2
      intro segment member
      rcases List.mem_map.1 member with ⟨reached, -, rfl⟩
      exact mapped reached
    rw [Function.comp_apply, traceLine, whole, List.map_map]
    apply List.map_congr_left
    intro reached member
    exact fixed line inside reached member
  have lost : (lines.map (·.map some)).flatten.countP (·.isNone) = 0 := by
    rw [List.countP_eq_zero, ← List.map_flatten]
    intro attempt member
    rcases List.mem_map.1 member with ⟨reached, -, rfl⟩
    exact Bool.false_ne_true
  rw [traceLines, attempts, lost, List.map_map]
  congr 1
  exact (List.map_congr_left fun line _ => flat_map_some line).trans (List.map_id lines)

theorem bind_node_modify {Value : Type} {change : Node → Node} {view : Node → Option Value}
    (kept : ∀ node, view (change node) = view node) (id other : NodeId) :
    ((graph.modify id change).node? other).bind view = (graph.node? other).bind view := by
  by_cases same : other = id
  · rw [same, node_modify_self, Option.bind_map]
    congr 1
    funext node
    exact kept node
  · rw [node_modify_of_ne graph change same]

end Graph

/-- A segment that stands for another leads to the same end from a root that carries its map. -/
theorem Stands.ends {sources : List NodeId} {names : List String} {old new : Segment}
    {place : Origin} {trace : Trace} {last : Node}
    (stands : Stands sources names old trace new place) (carried : node.map = some map)
    (reordered : node.sources = sources) (renamed : map.names = names)
    (fewSources : sources.length ≤ UInt32.size) (fewNames : names.length ≤ UInt32.size)
    (present : graph.node? trace.node = some last) (source : trace.source = last.path)
    (terminal : graph.isTerminal flatten trace.node = true) :
    graph.Ends flatten node place trace := by
  refine ⟨trace.node, ?_, ?_⟩
  · rw [reordered]
    exact stands.source.get fewSources
  · rw [Graph.trace_of_terminal present terminal, stands.name_of carried renamed fewNames,
      stands.line, stands.column, UInt32.sub_add_cancel, ← source]
    rfl

def Node.carrying (node : Node) (map : SourceMap) (lines : Mappings) (sources : List NodeId) :
    Node :=
  { node with map := some map, mappings := some lines, sources := sources }

namespace Chain

theorem map_of_carrying (chain : Chain) (options : Options) (map : SourceMap)
    (lines flats : Mappings) (sources ids : List NodeId) (names : List String) :
    (chain.carrying map lines sources).mapOf options flats ids names =
      chain.mapOf options flats ids names := by
  have path (id : NodeId) : ((chain.carrying map lines sources).graph.node? id).bind (·.path) =
      (chain.graph.node? id).bind (·.path) := by
    apply Graph.bind_node_modify
    intro node
    rfl
  have content (id : NodeId) :
      ((chain.carrying map lines sources).graph.node? id).bind (·.content) =
        (chain.graph.node? id).bind (·.content) := by
    apply Graph.bind_node_modify
    intro node
    rfl
  have rootPath : (chain.carrying map lines sources).rootPath? = chain.rootPath? :=
    path chain.root
  have base : (chain.carrying map lines sources).sourceBase options =
      chain.sourceBase options := by
    simp only [sourceBase, rootPath]
    rfl
  have render : (chain.carrying map lines sources).renderSource options =
      chain.renderSource options := by
    funext id
    simp only [renderSource, path, base]
    rfl
  have embed : (chain.carrying map lines sources).sourceContent options =
      chain.sourceContent options := by
    funext id
    simp only [sourceContent, content]
  simp only [mapOf, rootPath, render, embed]

theorem apply_carrying (map : SourceMap) (lines : Mappings) {sources : List NodeId}
    (active : options.flatten ≠ .off) (present : chain.rootNode? = some node)
    (filled : sources ≠ [])
    (complete : options.flatten = .existing → ∀ id ∈ sources, chain.graph.hasContent id = true) :
    ∃ traced,
      traced = (chain.carrying map lines sources).graph.traceLines options.flatten
        (node.carrying map lines sources) lines ∧
      ((chain.carrying map lines sources).apply options).1.untraceable = traced.untraceable ∧
      ((chain.carrying map lines sources).apply options).2 =
        some (chain.mapOf options traced.mappings traced.sources traced.names) := by
  have found : (chain.carrying map lines sources).flattenable? options.flatten =
      some (node.carrying map lines sources, map, lines) := by
    rw [flattenable_eq_some_iff, if_neg active]
    exact ⟨carried_root present, rfl, rfl, carried_inner present filled complete⟩
  refine ⟨_, rfl, ?_, ?_⟩
  · simp only [apply, found, if_neg active]
  · simp only [apply, found, if_neg active, map_of_carrying]

section Traced

variable {lines : Mappings} {traced : TracedLines}

theorem end_of_traced (map : SourceMap) (flats : Mappings)
    (inner : chain.graph.isTerminal flatten chain.root = false)
    (reached : traced = chain.graph.traceLines flatten node lines) {trace : Trace}
    (member : trace ∈ traced.traces) :
    ∃ last, (chain.carrying map flats traced.sources).graph.node? trace.node = some last ∧
      trace.source = last.path ∧
      (chain.carrying map flats traced.sources).graph.isTerminal flatten trace.node = true := by
  rw [reached] at member
  rcases ends_of_mem_traces member with ⟨origin, child, -, found⟩
  exact carried_end map flats traced.sources inner (Graph.traces_of_trace_within found)

theorem shallow_carrying (map : SourceMap) (flats : Mappings)
    (inner : chain.graph.isTerminal flatten chain.root = false)
    (reached : traced = chain.graph.traceLines flatten node lines) :
    (chain.carrying map flats traced.sources).graph.Shallow flatten
      (node.carrying map flats traced.sources) := by
  intro id member
  have listed : id ∈ traced.traces.map (·.node) := List.mem_eraseDups.1 member
  rcases List.mem_map.1 listed with ⟨trace, inside, rfl⟩
  rcases end_of_traced map flats inner reached inside with ⟨last, present, -, terminal⟩
  exact ⟨last, present, terminal⟩

/-- Every segment of the flattened map is traced to the end that it was written for. -/
theorem trace_lines_carrying (flats : Mappings)
    (inner : chain.graph.isTerminal flatten chain.root = false)
    (reached : traced = chain.graph.traceLines flatten node lines)
    (names : map.names = traced.names) (fewSources : traced.sources.length ≤ UInt32.size)
    (fewNames : traced.names.length ≤ UInt32.size) :
    (chain.carrying map flats traced.sources).graph.traceLines flatten
        (node.carrying map flats traced.sources) traced.mappings = ⟨traced.lines, 0⟩ := by
  apply Graph.trace_lines_of_fixed
  · intro segment
    rfl
  · intro line inside segment member
    have listed : segment.trace ∈ traced.traces :=
      List.mem_map_of_mem (List.mem_flatten_of_mem inside member)
    have source : segment.trace.node ∈ traced.sources :=
      List.mem_eraseDups.2 (List.mem_map_of_mem listed)
    have name (text : String) (named : segment.trace.name = some text) : text ∈ traced.names :=
      List.mem_eraseDups.2 (List.mem_filterMap.2 ⟨segment.trace, listed, named⟩)
    have stands : Stands traced.sources traced.names ⟨segment.generatedColumn, none⟩
        segment.trace _ _ := stands_segment source name
    rcases end_of_traced map flats inner reached listed with ⟨last, present, path, terminal⟩
    have ends : (chain.carrying map flats traced.sources).graph.Ends flatten
        (node.carrying map flats traced.sources) _ segment.trace :=
      stands.ends rfl rfl names fewSources fewNames present path terminal
    exact Graph.trace_segment_of_ends stands.traced ends

theorem fits_of_carrying (inner : chain.graph.isTerminal flatten chain.root = false)
    (reached : traced = chain.graph.traceLines flatten node lines) {again : TracedLines}
    (retraced : again = (chain.carrying map traced.mappings traced.sources).graph.traceLines flatten
      (node.carrying map traced.mappings traced.sources) traced.mappings) :
    again.sources.length ≤ UInt32.size ∧ again.names.length ≤ UInt32.size := by
  have shallow := shallow_carrying map traced.mappings inner reached
  rw [retraced]
  exact ⟨length_sources_of_shallow shallow traced.mappings,
    length_names_of_shallow rfl shallow traced.mappings⟩

theorem repeats_iff_fits (active : options.flatten ≠ .off) (present : chain.rootNode? = some node)
    (inner : chain.graph.isTerminal options.flatten chain.root = false)
    (reached : traced = chain.graph.traceLines options.flatten node lines)
    (same : map = chain.mapOf options traced.mappings traced.sources traced.names)
    (filled : traced.sources ≠ [])
    (complete : options.flatten = .existing →
      ∀ id ∈ traced.sources, chain.graph.hasContent id = true) :
    ((chain.carrying map traced.mappings traced.sources).apply options).2 = some map ∧
        ((chain.carrying map traced.mappings traced.sources).apply options).1.untraceable = 0 ↔
      traced.sources.length ≤ UInt32.size ∧ traced.names.length ≤ UInt32.size := by
  have names : map.names = traced.names := by
    rw [same]
    rfl
  rcases apply_carrying map traced.mappings active present filled complete
    with ⟨again, retraced, lost, returned⟩
  rw [lost, returned, Option.some.injEq]
  constructor
  · intro alike
    have counted := congrArg (·.sources.length) alike.1
    have sameNames : again.names = map.names := congrArg (·.names) alike.1
    simp only [same, mapOf, List.length_map] at counted
    rw [← counted, ← names, ← sameNames]
    exact fits_of_carrying inner reached retraced
  · intro fits
    rw [trace_lines_carrying traced.mappings inner reached names fits.1 fits.2] at retraced
    rw [retraced]
    exact ⟨same.symm, rfl⟩

end Traced

/-- A root that carries its flattened map is flattened to the same map, and nothing is lost, just
where the thirty-two bits of an index can count the sources and the names. -/
theorem flattening_repeats_iff (active : options.flatten ≠ .off)
    (applied : (chain.apply options).2 = some map) (filled : map.sources ≠ []) :
    ∃ lines, Mappings.decode map.mappings = .ok lines ∧
      map.sources = (chain.flatSources options.flatten).map (chain.renderSource options) ∧
      (((chain.carrying map lines (chain.flatSources options.flatten)).apply options).2 =
            some map ∧
          ((chain.carrying map lines (chain.flatSources options.flatten)).apply
            options).1.untraceable = 0 ↔
        map.sources.length ≤ UInt32.size ∧ map.names.length ≤ UInt32.size) := by
  rcases of_apply active applied with ⟨node, rootMap, rootLines, found, -, sources, same⟩
  rcases flattenable_eq_some_iff.1 found with ⟨present, -, -, inner⟩
  rw [if_neg active] at inner
  have complete : options.flatten = .existing →
      ∀ id ∈ chain.flatSources options.flatten, chain.graph.hasContent id = true := by
    intro existing id member
    rw [existing] at member
    exact has_content_of_mem_flat_sources member
  obtain ⟨traced, reached⟩ :
      ∃ traced, traced = chain.graph.traceLines options.flatten node rootLines := ⟨_, rfl⟩
  rw [← reached] at sources same
  rw [sources] at complete ⊢
  have rendered : map.sources = traced.sources.map (chain.renderSource options) := by
    rw [same]
    rfl
  have names : map.names = traced.names := by
    rw [same]
    rfl
  have reaches : traced.sources ≠ [] := by
    intro empty
    rw [rendered, empty] at filled
    exact filled rfl
  refine ⟨traced.mappings, ?_, rendered, ?_⟩
  · rw [same]
    exact Mappings.decode_encode_of_ne_nil (TracedLines.mappings_ne_nil reaches)
  · rw [names, congrArg List.length rendered, List.length_map]
    exact repeats_iff_fits active present inner reached same reaches complete

/-- One segment is lost when the root is flattened, and none when it is flattened again. -/
theorem crossed_flattening_repeats :
    ({} : Options).flatten ≠ .off ∧ (crossed.apply {}).1.untraceable = 1 ∧
      ∃ map lines, (crossed.apply {}).2 = some map ∧ map.sources ≠ [] ∧
        Mappings.decode map.mappings = .ok lines ∧
        ((crossed.carrying map lines (crossed.flatSources .full)).apply {}).2 = some map ∧
        ((crossed.carrying map lines (crossed.flatSources .full)).apply {}).1.untraceable = 0 := by
  have active : ({} : Options).flatten ≠ .off := by decide
  have flattened : ∃ map, (crossed.apply {}).2 = some map ∧ map.sources.length = 2 ∧
      map.names.length = 2 := ⟨_, rfl, by decide +kernel, by decide +kernel⟩
  rcases flattened with ⟨map, applied, sources, names⟩
  have filled : map.sources ≠ [] := by
    intro empty
    rw [empty] at sources
    cases sources
  rcases flattening_repeats_iff active applied filled with ⟨lines, decoded, -, repeated⟩
  have fits : map.sources.length ≤ UInt32.size ∧ map.names.length ≤ UInt32.size := by
    rw [sources, names]
    decide
  have again := repeated.2 fits
  exact ⟨active, by decide, map, lines, applied, filled, decoded, again.1, again.2⟩

end Chain

end MapChain
