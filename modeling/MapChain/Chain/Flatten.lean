import MapChain.Chain.Basic
import MapChain.Mappings.Text

/-!
One map in place of a chain of maps. Every segment of the root is traced to its end; sources and
names are numbered in the order in which they turn up first. Main statement: no source and no name
is numbered twice.
-/

set_option autoImplicit false

namespace MapChain

/-- A generated column with the place that it came from. -/
structure TracedSegment where
  generatedColumn : UInt32
  trace : Trace
  deriving DecidableEq, Repr

/-- The segments of every line that could be traced, and the number of those that could not. -/
structure TracedLines where
  lines : List (List TracedSegment)
  untraceable : Nat
  deriving DecidableEq, Repr

namespace Graph

/-- The end of the way of one segment of a node that has an origin. The name that the segment has
is kept where no deeper map knows another. -/
def traceOrigin (graph : Graph) (flatten : Flatten) (node : Node) (origin : Origin) :
    Option Trace := do
  let source ← node.sources[origin.source.toNat]?
  let hint := origin.name.bind fun index => node.map.bind (·.name? index.toNat)
  graph.trace flatten ⟨source, origin.line, some origin.column, hint⟩

def traceSegment (graph : Graph) (flatten : Flatten) (node : Node) (segment : Segment) :
    Option TracedSegment := do
  let origin ← segment.origin
  let trace ← graph.traceOrigin flatten node origin
  return ⟨segment.generatedColumn, trace⟩

/-- Traces the segments that have an origin. The others are passed over, and do not count as
untraceable. -/
def traceLine (graph : Graph) (flatten : Flatten) (node : Node) (line : Line) :
    List (Option TracedSegment) :=
  (line.filter (·.origin.isSome)).map (graph.traceSegment flatten node)

def traceLines (graph : Graph) (flatten : Flatten) (node : Node) (lines : Mappings) :
    TracedLines :=
  let attempts := lines.map (graph.traceLine flatten node)
  ⟨attempts.map (·.flatMap Option.toList), attempts.flatten.countP (·.isNone)⟩

end Graph

namespace TracedLines

def traces (traced : TracedLines) : List Trace := traced.lines.flatten.map (·.trace)

/-- The nodes that were reached, in the order in which they turn up first. -/
def sources (traced : TracedLines) : List NodeId := (traced.traces.map (·.node)).eraseDups

def names (traced : TracedLines) : List String := (traced.traces.filterMap (·.name)).eraseDups

theorem nodup_erase_dups {Value : Type} [BEq Value] [LawfulBEq Value] :
    (values : List Value) → values.eraseDups.Nodup
  | [] => by simp
  | value :: values => by
      rw [List.eraseDups_cons]
      refine List.nodup_cons.2 ⟨?_, nodup_erase_dups _⟩
      simp
termination_by values => values.length
decreasing_by
  exact Nat.lt_succ_of_le (List.length_filter_le _ _)

theorem nodup_sources (traced : TracedLines) : traced.sources.Nodup := nodup_erase_dups _

theorem nodup_names (traced : TracedLines) : traced.names.Nodup := nodup_erase_dups _

def number {Value : Type} [BEq Value] (values : List Value) (value : Value) : UInt32 :=
  UInt32.ofNat (values.idxOf value)

def segment (sources : List NodeId) (names : List String) (traced : TracedSegment) : Segment :=
  ⟨traced.generatedColumn,
    some
      { source := number sources traced.trace.node
        line := traced.trace.line - 1
        column := traced.trace.column
        name := traced.trace.name.map (number names) }⟩

def mappings (traced : TracedLines) : Mappings :=
  let sources := traced.sources
  let names := traced.names
  traced.lines.map (·.map (segment sources names))

end TracedLines

namespace Chain

def sourceBase (chain : Chain) (options : Options) : Path :=
  match options.base with
  | some base => Path.absolute chain.directory base
  | none => originDirectory chain.directory chain.rootPath?

/-- How a source is written in a map. Content without a path has no name. -/
def renderSource (chain : Chain) (options : Options) (id : NodeId) : Option String :=
  ((chain.graph.node? id).bind (·.path)).map fun path =>
    Template.render chain.directory options.sourcePathTemplate path (chain.sourceBase options)

def sourceContent (chain : Chain) (options : Options) (id : NodeId) : Option String :=
  if options.excludeContent then none else (chain.graph.node? id).bind (·.content)

def mapOf (chain : Chain) (options : Options) (mappings : Mappings) (sources : List NodeId)
    (names : List String) : SourceMap :=
  { version := SourceMap.currentVersion
    file := chain.rootPath?.map Path.fileName
    sources := sources.map (chain.renderSource options)
    sourcesContent := sources.map (chain.sourceContent options)
    names := names
    mappings := mappings.encode
    sourceRoot := options.sourceRoot }

def flattenable? (chain : Chain) (flatten : Flatten) : Option (Node × SourceMap × Mappings) := do
  let node ← chain.rootNode?
  let map ← node.map
  let mappings ← node.mappings
  let policy := if flatten = .off then .full else flatten
  if chain.graph.isTerminal policy chain.root then none else some (node, map, mappings)

/-- One map for the root of the chain. The count of untraceable segments changes only where
segments are traced. -/
def apply (chain : Chain) (options : Options) : Chain × Option SourceMap :=
  match chain.flattenable? options.flatten with
  | none => (chain, none)
  | some (node, map, mappings) =>
      if options.flatten = .off then
        (chain, some (chain.mapOf options mappings node.sources map.names))
      else
        let traced := chain.graph.traceLines options.flatten node mappings
        ({ chain with untraceable := traced.untraceable },
          some (chain.mapOf options traced.mappings traced.sources traced.names))

end Chain

end MapChain
