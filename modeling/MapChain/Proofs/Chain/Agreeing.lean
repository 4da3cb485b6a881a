import MapChain.Proofs.Chain.Shallow
import MapChain.Proofs.Session.Calls

/-!
The map of a root, given out as it is or flattened, where all sources of the root are terminal. The
two maps number their sources and names in ways of their own, so they are compared by what their
segments stand for. Main statement: line by line their segments with an origin mean the same.
-/

set_option autoImplicit false

namespace MapChain

/-- What a segment says, with the entries of its map in place of their indices. -/
structure Meaning where
  generatedColumn : UInt32
  source : Option String
  content : Option String
  line : UInt32
  column : UInt32
  name : Option String
  deriving DecidableEq, Repr

/-- A segment without an origin, or with a source that its map does not have, means nothing. -/
def SourceMap.meaning? (map : SourceMap) (segment : Segment) : Option Meaning := do
  let origin ← segment.origin
  let source ← map.sources[origin.source.toNat]?
  let content ← map.sourcesContent[origin.source.toNat]?
  return { generatedColumn := segment.generatedColumn
           source := source
           content := content
           line := origin.line
           column := origin.column
           name := origin.name.bind fun index => map.name? index.toNat }

variable {graph : Graph} {flatten : Flatten} {node : Node} {chain : Chain} {options seed : Options}
  {map : SourceMap} {segment : Segment} {origin : Origin} {directory : Path} {session : Session}

namespace Chain

def meaningOf (chain : Chain) (options : Options) (reached : TracedSegment) : Meaning where
  generatedColumn := reached.generatedColumn
  source := chain.renderSource options reached.trace.node
  content := chain.sourceContent options reached.trace.node
  line := reached.trace.line - 1
  column := reached.trace.column
  name := reached.trace.name

theorem meaning_of_source {ids : List NodeId} {names : List String} {id : NodeId} (chain : Chain)
    (options : Options) (lines : Mappings) (mapped : segment.origin = some origin)
    (found : ids[origin.source.toNat]? = some id) :
    (chain.mapOf options lines ids names).meaning? segment =
      some ⟨segment.generatedColumn, chain.renderSource options id,
        chain.sourceContent options id, origin.line, origin.column,
        origin.name.bind fun index => names[index.toNat]?⟩ := by
  simp [SourceMap.meaning?, SourceMap.name?, mapOf, mapped, found]

theorem meaning_of_segment {sources : List NodeId} {names : List String} {reached : TracedSegment}
    (chain : Chain) (options : Options) (lines : Mappings)
    (fewSources : sources.length ≤ UInt32.size) (fewNames : names.length ≤ UInt32.size)
    (source : reached.trace.node ∈ sources)
    (name : ∀ name, reached.trace.name = some name → name ∈ names) :
    (chain.mapOf options lines sources names).meaning?
      (TracedLines.segment sources names reached) = some (chain.meaningOf options reached) := by
  have stands : Stands sources names ⟨reached.generatedColumn, none⟩ reached.trace _ _ :=
    stands_segment source name
  have found := stands.source.get fewSources
  rw [chain.meaning_of_source options lines stands.traced found,
    Numbers.bind_get fewNames stands.name]
  rfl

/-- A segment whose way ends at the source that it names means the same untraced. -/
theorem meaning_of_traced {reached : TracedSegment} (chain : Chain) (options : Options)
    (lines : Mappings) (shallow : graph.Shallow flatten node) (mapped : node.map = some map)
    (traced : graph.traceSegment flatten node segment = some reached) :
    (chain.mapOf options lines node.sources map.names).meaning? segment =
      some (chain.meaningOf options reached) := by
  rcases Graph.of_trace_segment traced with ⟨origin, placed, column, ends⟩
  rcases (Graph.ends_iff_of_shallow shallow).1 ends with ⟨child, last, found, -, same⟩
  have name : node.nameOf? origin = origin.name.bind fun index => map.names[index.toNat]? := by
    rw [Node.nameOf?, mapped]
    rfl
  rw [chain.meaning_of_source options lines placed found, meaningOf, same, column, name,
    UInt32.add_sub_cancel]

end Chain

/-- Where every source that is named is there, every segment with an origin is traced. -/
theorem Graph.trace_line_of_shallow (shallow : graph.Shallow flatten node) (line : Line)
    (inRange : ∀ segment ∈ line, ∀ origin ∈ segment.origin,
      origin.source.toNat < node.sources.length) :
    ∃ reached : List TracedSegment, graph.traceLine flatten node line = reached.map some := by
  induction line with
  | nil => exact ⟨[], rfl⟩
  | cons segment line induction =>
      rcases induction fun other member => inRange other (List.mem_cons_of_mem segment member)
        with ⟨reached, rest⟩
      cases mapped : segment.origin with
      | none =>
          rw [trace_line_bare mapped]
          exact ⟨reached, rest⟩
      | some origin =>
          have inside := inRange segment List.mem_cons_self origin mapped
          have source := List.getElem?_eq_getElem inside
          rcases shallow _ (List.mem_of_getElem? source) with ⟨last, present, -⟩
          have ends := (ends_iff_of_shallow shallow).2 ⟨_, last, source, present, rfl⟩
          rw [trace_line_mapped mapped, trace_segment_of_ends mapped ends, rest]
          exact ⟨_ :: reached, rfl⟩

theorem Graph.mappings_of_trace_lines {lines : Mappings} {traced : TracedLines}
    (reached : traced = graph.traceLines flatten node lines) :
    traced.mappings = lines.map fun line =>
      ((graph.traceLine flatten node line).flatMap Option.toList).map
        (TracedLines.segment traced.sources traced.names) := by
  rw [TracedLines.mappings]
  simp only [reached, traceLines, List.map_map]
  rfl

/-- Two lines of two maps mean the same, but for segments of the first that have no origin. -/
def SourceMap.Agrees (map other : SourceMap) (line flat : Line) : Prop :=
  ∃ meanings : List Meaning,
    (line.filter (·.origin.isSome)).map map.meaning? = meanings.map some ∧
      flat.map other.meaning? = meanings.map some

theorem Mappings.forall_written {related : Line → Line → Prop} {lines flats : Mappings}
    (blank : related [] []) (alike : List.Forall₂ related lines flats) :
    ∃ rows others, decode (encode lines) = .ok rows ∧ decode (encode flats) = .ok others ∧
      List.Forall₂ related rows others := by
  cases alike with
  | nil => exact ⟨[[]], [[]], decode_encode_nil, decode_encode_nil, .cons blank .nil⟩
  | @cons line flat lines flats first rest =>
      exact ⟨line :: lines, flat :: flats, decode_encode_of_ne_nil (List.cons_ne_nil _ _),
        decode_encode_of_ne_nil (List.cons_ne_nil _ _), .cons first rest⟩

namespace Chain

theorem meanings_of_line {line : Line} {reached : List TracedSegment} (chain : Chain)
    (options : Options) (lines : Mappings) (shallow : graph.Shallow flatten node)
    (mapped : node.map = some map)
    (attempts : graph.traceLine flatten node line = reached.map some) :
    (line.filter (·.origin.isSome)).map
        (chain.mapOf options lines node.sources map.names).meaning? =
      (reached.map (chain.meaningOf options)).map some := by
  have each : ∀ segment ∈ line.filter (·.origin.isSome),
      (chain.mapOf options lines node.sources map.names).meaning? segment =
        (graph.traceSegment flatten node segment).map (chain.meaningOf options) := by
    intro segment member
    have tried : graph.traceSegment flatten node segment ∈ reached.map some := by
      rw [← attempts]
      exact List.mem_map_of_mem member
    rcases List.mem_map.1 tried with ⟨found, -, traced⟩
    rw [← traced]
    exact chain.meaning_of_traced options lines shallow mapped traced.symm
  calc (line.filter (·.origin.isSome)).map
        (chain.mapOf options lines node.sources map.names).meaning?
    _ = (graph.traceLine flatten node line).map (Option.map (chain.meaningOf options)) := by
        rw [Graph.traceLine, List.map_map]
        exact List.map_congr_left each
    _ = (reached.map (chain.meaningOf options)).map some := by
        rw [attempts, List.map_map, List.map_map]
        rfl

theorem meanings_of_flat {sources : List NodeId} {names : List String}
    {reached : List TracedSegment} (chain : Chain) (options : Options) (lines : Mappings)
    (fewSources : sources.length ≤ UInt32.size) (fewNames : names.length ≤ UInt32.size)
    (numbered : Numbered sources names (reached.map some)) :
    (((reached.map some).flatMap Option.toList).map (TracedLines.segment sources names)).map
        (chain.mapOf options lines sources names).meaning? =
      (reached.map (chain.meaningOf options)).map some := by
  rw [flat_map_some, List.map_map, List.map_map]
  apply List.map_congr_left
  intro segment member
  have listed := numbered segment (List.mem_map_of_mem member)
  exact chain.meaning_of_segment options lines fewSources fewNames listed.1 listed.2

theorem agrees_of_shallow {lines : Mappings} {line : Line} {traced : TracedLines} (chain : Chain)
    (options : Options) (flats : Mappings) (shallow : graph.Shallow flatten node)
    (mapped : node.map = some map) (reached : traced = graph.traceLines flatten node lines)
    (inside : line ∈ lines)
    (inRange : ∀ segment ∈ line, ∀ origin ∈ segment.origin,
      origin.source.toNat < node.sources.length) :
    (chain.mapOf options lines node.sources map.names).Agrees
      (chain.mapOf options flats traced.sources traced.names) line
      (((graph.traceLine flatten node line).flatMap Option.toList).map
        (TracedLines.segment traced.sources traced.names)) := by
  rcases Graph.trace_line_of_shallow shallow line inRange with ⟨found, attempts⟩
  have numbered : Numbered traced.sources traced.names (graph.traceLine flatten node line) := by
    rw [reached]
    exact numbered_trace_lines lines line inside
  have fewSources := length_sources_of_shallow shallow lines
  have fewNames := length_names_of_shallow mapped shallow lines
  rw [← reached] at fewSources fewNames
  rw [attempts] at numbered ⊢
  exact ⟨found.map (chain.meaningOf options),
    chain.meanings_of_line options lines shallow mapped attempts,
    chain.meanings_of_flat options flats fewSources fewNames numbered⟩

structure OneLevel (chain : Chain) : Prop where
  inner : chain.graph.isTerminal .full chain.root = false
  level : ∀ node, chain.rootNode? = some node →
    ∀ child ∈ node.sources, chain.graph.isTerminal .full child = true
  inRange : ∀ node lines, chain.rootNode? = some node → node.mappings = some lines →
    ∀ line ∈ lines, ∀ segment ∈ line, ∀ origin ∈ segment.origin,
      origin.source.toNat < node.sources.length

/-- Tracing ends at the sources of the root, which are nodes of a graph that was loaded. -/
theorem OneLevel.shallow (oneLevel : chain.OneLevel) (orderly : chain.graph.Orderly)
    (present : chain.rootNode? = some node) : chain.graph.Shallow .full node := by
  intro child member
  rcases List.mem_iff_getElem?.1 member with ⟨position, found⟩
  rcases orderly.valid chain.root position child ⟨node, present, found⟩ with ⟨path, last, there, -⟩
  exact ⟨last, there, oneLevel.level node present child member⟩

theorem OneLevel.maps (oneLevel : chain.OneLevel) (options : Options) :
    ∃ node map lines traced, chain.rootNode? = some node ∧ node.map = some map ∧
      node.mappings = some lines ∧ traced = chain.graph.traceLines .full node lines ∧
      (chain.apply { options with flatten := .off }).2 =
        some (chain.mapOf options lines node.sources map.names) ∧
      (chain.apply { options with flatten := .full }).2 =
        some (chain.mapOf options traced.mappings traced.sources traced.names) := by
  have inner := oneLevel.inner
  rcases Graph.is_terminal_eq_false_iff.1 inner with ⟨node, present, withMap, withLines, -⟩
  rcases Option.isSome_iff_exists.1 withMap with ⟨map, mapped⟩
  rcases Option.isSome_iff_exists.1 withLines with ⟨lines, read⟩
  have off : chain.flattenable? .off = some (node, map, lines) :=
    flattenable_eq_some_iff.2 ⟨present, mapped, read, inner⟩
  have full : chain.flattenable? .full = some (node, map, lines) :=
    flattenable_eq_some_iff.2 ⟨present, mapped, read, inner⟩
  refine ⟨node, map, lines, _, present, mapped, read, rfl, ?_, ?_⟩
  · simp only [apply, off]
    rfl
  · simp only [apply, full]
    rfl

/-- The map of the root as it is and its flattened map, read back, agree in every line. -/
theorem one_level_maps_agree (rooted : directory.isAbsolute = true)
    (followed : Relation.ReflTransGen Session.Follows (Session.start directory seed) session)
    (built : chain.graph = session.graph) (oneLevel : chain.OneLevel) (options : Options) :
    ∃ whole flat lines flats,
      (chain.apply { options with flatten := .off }).2 = some whole ∧
        (chain.apply { options with flatten := .full }).2 = some flat ∧
        Mappings.decode whole.mappings = .ok lines ∧ Mappings.decode flat.mappings = .ok flats ∧
        List.Forall₂ (whole.Agrees flat) lines flats := by
  have orderly : chain.graph.Orderly := by
    rw [built]
    exact Session.orderly_of_follows rooted followed
  rcases oneLevel.maps options
    with ⟨node, map, lines, traced, present, mapped, read, reached, written, flattened⟩
  have shallow := oneLevel.shallow orderly present
  have alike : List.Forall₂ ((chain.mapOf options lines node.sources map.names).Agrees
      (chain.mapOf options traced.mappings traced.sources traced.names)) lines
      traced.mappings := by
    rw [Graph.mappings_of_trace_lines reached, List.forall₂_map_right_iff, List.forall₂_same]
    intro line inside
    exact chain.agrees_of_shallow options _ shallow mapped reached inside
      (oneLevel.inRange node lines present read line inside)
  rcases Mappings.forall_written ⟨[], rfl, rfl⟩ alike with ⟨wholes, flats, first, second, agree⟩
  exact ⟨_, _, wholes, flats, written, flattened, first, second, agree⟩

/-- A file that names one of its two sources twice, and a name twice. -/
def repeatedOptions : Options :=
  { sourceMaps :=
      [(⟨"out.js"⟩, ⟨3, none, [some "b.js", some "a.js", some "./a.js"],
        [some "b", some "a", none], ["x", "y", "x"], "A,CEAAE,CDCAF;ADDA", none⟩)] }

def repeatedSession : Session :=
  ((Session.start ⟨"/w"⟩ repeatedOptions).call .empty 2 (.load .blocking 0)).1

def repeated : Chain := ⟨repeatedSession.graph, 0, 0, ⟨"/w"⟩⟩

theorem one_level_repeated : repeated.OneLevel where
  inner := by decide +kernel
  level := by
    have level : ∀ node ∈ repeated.rootNode?, ∀ child ∈ node.sources,
        repeated.graph.isTerminal .full child = true := by
      decide +kernel
    exact level
  inRange := by
    have inRange : ∀ node ∈ repeated.rootNode?, ∀ lines ∈ node.mappings, ∀ line ∈ lines,
        ∀ segment ∈ line, ∀ origin ∈ segment.origin,
          origin.source.toNat < node.sources.length := by
      decide +kernel
    intro node lines present read
    exact inRange node present lines read

theorem repeated_maps_agree :
    repeatedSession.chain? 0 = some repeated ∧
      Relation.ReflTransGen Session.Follows (Session.start ⟨"/w"⟩ repeatedOptions)
        repeatedSession ∧
      repeated.OneLevel ∧
      ∃ whole flat lines flats,
        (repeated.apply { flatten := .off }).2 = some whole ∧
        (repeated.apply { flatten := .full }).2 = some flat ∧
        whole.sources = [some "b.js", some "a.js", some "a.js"] ∧
        flat.sources = [some "a.js", some "b.js"] ∧
        whole.names = ["x", "y", "x"] ∧ flat.names = ["x"] ∧
        Mappings.decode whole.mappings = .ok lines ∧ Mappings.decode flat.mappings = .ok flats ∧
        List.Forall₂ (whole.Agrees flat) lines flats := by
  have rooted : Path.isAbsolute ⟨"/w"⟩ = true := by decide
  have followed :
      Relation.ReflTransGen Session.Follows (Session.start ⟨"/w"⟩ repeatedOptions)
        repeatedSession :=
    .single ⟨.empty, 2, .load .blocking 0, by rw [repeatedSession]⟩
  rcases one_level_maps_agree rooted followed rfl one_level_repeated {}
    with ⟨whole, flat, lines, flats, written, flattened, first, second, agree⟩
  have unchanged :
      (repeated.apply { flatten := .off }).2.map (fun map => (map.sources, map.names)) =
        some ([some "b.js", some "a.js", some "a.js"], ["x", "y", "x"]) := by
    decide +kernel
  have changed :
      (repeated.apply { flatten := .full }).2.map (fun map => (map.sources, map.names)) =
        some ([some "a.js", some "b.js"], ["x"]) := by
    decide +kernel
  rw [written, Option.map_some, Option.some.injEq, Prod.mk.injEq] at unchanged
  rw [flattened, Option.map_some, Option.some.injEq, Prod.mk.injEq] at changed
  exact ⟨rfl, followed, one_level_repeated, whole, flat, lines, flats, written, flattened,
    unchanged.1, changed.1, unchanged.2, changed.2, first, second, agree⟩

end Chain

end MapChain
