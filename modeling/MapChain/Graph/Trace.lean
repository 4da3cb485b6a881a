import MapChain.Graph.Basic

/-!
Tracing a position back through the maps of a graph, one hop from node to node. Main statement: a
terminal node is where a trace ends.
-/

set_option autoImplicit false

namespace MapChain

/-- Lines and columns count from zero. Without a column only the line is asked for. -/
structure Position where
  node : NodeId
  line : UInt32
  column : Option UInt32
  /-- The name found last on the way here. -/
  name : Option String
  deriving DecidableEq, Repr

structure Trace where
  node : NodeId
  source : Option Path
  line : UInt32
  column : UInt32
  name : Option String
  deriving DecidableEq, Repr

inductive Hop where
  | arrived (trace : Trace)
  | unmapped
  | onward (position : Position)
  deriving DecidableEq, Repr

/-- The segment that begins at a column. The search ends where columns exceed it. -/
def Line.at? (line : Line) (column : UInt32) : Option Segment :=
  (line.takeWhile (·.generatedColumn ≤ column)).find? (·.generatedColumn = column)

namespace Graph

/-- The segment that a position follows, and whether it lies at the column asked for. Where none
does, the first segment of the line stands in. -/
def segmentAt? (line : Line) (column : Option UInt32) : Option (Segment × Bool) :=
  match column.bind line.at? with
  | some segment => some (segment, true)
  | none => line.head?.map (·, false)

def onward? (node : Node) (position : Position) : Option Position := do
  let lines ← node.mappings
  let line ← lines[position.line.toNat]?
  let (segment, exact) ← segmentAt? line position.column
  let origin ← segment.origin
  let source ← node.sources[origin.source.toNat]?
  let found := origin.name.bind fun index => node.map.bind (·.name? index.toNat)
  return ⟨source, origin.line, if exact then some origin.column else none,
    found.or position.name⟩

def hop (graph : Graph) (flatten : Flatten) (position : Position) : Hop :=
  match graph.node? position.node with
  | none => .unmapped
  | some node =>
      if graph.isTerminal flatten position.node then
        .arrived ⟨position.node, node.path, position.line + 1, position.column.getD 0,
          position.name⟩
      else
        match onward? node position with
        | none => .unmapped
        | some next => .onward next

def traceWithin (graph : Graph) (flatten : Flatten) : Nat → Position → Option Trace
  | 0, _ => none
  | hops + 1, position =>
      match graph.hop flatten position with
      | .arrived trace => some trace
      | .unmapped => none
      | .onward next => traceWithin graph flatten hops next

/-- Follows a position to a terminal node. A way that passes more nodes than the graph has runs in
a circle and leads nowhere. -/
def trace (graph : Graph) (flatten : Flatten) (position : Position) : Option Trace :=
  graph.traceWithin flatten (graph.size + 1) position

theorem trace_of_arrived {graph : Graph} {flatten : Flatten} {position : Position} {trace : Trace}
    (arrived : graph.hop flatten position = .arrived trace) :
    graph.trace flatten position = some trace := by
  simp [Graph.trace, traceWithin, arrived]

end Graph

end MapChain
