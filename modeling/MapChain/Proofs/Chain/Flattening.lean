import MapChain.Chain.Flatten
import MapChain.Proofs.Graph.Ending
import MapChain.Proofs.Mappings.RoundTrip

/-!
What flattening makes of the lines of a root, said segment by segment. A segment without an origin
is passed over, one whose way leads nowhere is dropped and counted, and any other stands in the new
line with its old column and the place where its way ends. Main statement: the lines of a flattened
map are exactly these.
-/

set_option autoImplicit false

namespace MapChain

/-- The mappings of every node are what the text of its map says. -/
def Graph.Decoded (graph : Graph) : Prop :=
  ∀ id node map lines, graph.node? id = some node → node.map = some map →
    node.mappings = some lines → Mappings.decode map.mappings = .ok lines

/-- The way of a segment of `node` with this origin ends at a trace. -/
def Graph.Ends (graph : Graph) (flatten : Flatten) (node : Node) (origin : Origin)
    (trace : Trace) : Prop :=
  ∃ child, node.sources[origin.source.toNat]? = some child ∧
    graph.trace flatten ⟨child, origin.line, some origin.column, node.nameOf? origin⟩ = some trace

/-- The place of a value in a list, written in thirty-two bits. -/
def Numbers {Value : Type} (values : List Value) (index : UInt32) (value : Value) : Prop :=
  ∃ place, values[place]? = some value ∧ index = UInt32.ofNat place

/-- A segment that stands for an old one whose way ended at a trace. -/
structure Stands (sources : List NodeId) (names : List String) (old : Segment) (trace : Trace)
    (new : Segment) (origin : Origin) : Prop where
  traced : new.origin = some origin
  generated : new.generatedColumn = old.generatedColumn
  source : Numbers sources origin.source trace.node
  line : origin.line = trace.line - 1
  column : origin.column = trace.column
  name : Option.Rel (Numbers names) origin.name trace.name

/-- A line of `node`, the line that it becomes, and how many of its segments are lost. -/
inductive FlatLine (graph : Graph) (flatten : Flatten) (node : Node) (sources : List NodeId)
    (names : List String) : Line → Line → Nat → Prop where
  | nil : FlatLine graph flatten node sources names [] [] 0
  | bare {segment : Segment} {line flat : Line} {lost : Nat} (bare : segment.origin = none)
      (rest : FlatLine graph flatten node sources names line flat lost) :
      FlatLine graph flatten node sources names (segment :: line) flat lost
  | lost {segment : Segment} {origin : Origin} {line flat : Line} {lost : Nat}
      (mapped : segment.origin = some origin)
      (astray : ∀ trace, ¬graph.Ends flatten node origin trace)
      (rest : FlatLine graph flatten node sources names line flat lost) :
      FlatLine graph flatten node sources names (segment :: line) flat (lost + 1)
  | kept {segment new : Segment} {origin place : Origin} {trace : Trace} {line flat : Line}
      {lost : Nat} (mapped : segment.origin = some origin)
      (ends : graph.Ends flatten node origin trace)
      (stands : Stands sources names segment trace new place)
      (rest : FlatLine graph flatten node sources names line flat lost) :
      FlatLine graph flatten node sources names (segment :: line) (new :: flat) lost

inductive FlatLines (graph : Graph) (flatten : Flatten) (node : Node) (sources : List NodeId)
    (names : List String) : Mappings → Mappings → Nat → Prop where
  | nil : FlatLines graph flatten node sources names [] [] 0
  | cons {line flat : Line} {lines flats : Mappings} {lost losts : Nat}
      (first : FlatLine graph flatten node sources names line flat lost)
      (rest : FlatLines graph flatten node sources names lines flats losts) :
      FlatLines graph flatten node sources names (line :: lines) (flat :: flats) (lost + losts)

def Mappings.mappedCount (lines : Mappings) : Nat := (lines.map (·.countP (·.origin.isSome))).sum

def Mappings.segmentCount (lines : Mappings) : Nat := (lines.map List.length).sum

variable {graph : Graph} {flatten : Flatten} {node : Node} {sources : List NodeId}
  {names : List String}

namespace Numbers

variable {Value : Type} {values : List Value} {index : UInt32} {value : Value}

theorem mem (numbers : Numbers values index value) : value ∈ values := by
  obtain ⟨place, found, -⟩ := numbers
  exact List.mem_of_getElem? found

theorem of_mem [BEq Value] [LawfulBEq Value] (member : value ∈ values) :
    Numbers values (TracedLines.number values value) value := by
  have inside := List.idxOf_lt_length_of_mem member
  refine ⟨values.idxOf value, ?_, rfl⟩
  rw [List.getElem?_eq_getElem inside, List.getElem_idxOf]

theorem get (fits : values.length ≤ UInt32.size) (numbers : Numbers values index value) :
    values[index.toNat]? = some value := by
  obtain ⟨place, found, rfl⟩ := numbers
  have inside := (List.getElem?_eq_some_iff.1 found).1
  rwa [UInt32.toNat_ofNat_of_lt' (Nat.lt_of_lt_of_le inside fits)]

theorem bind_get {place : Option UInt32} {found : Option Value}
    (fits : values.length ≤ UInt32.size) (related : Option.Rel (Numbers values) place found) :
    (place.bind fun index => values[index.toNat]?) = found := by
  cases related with
  | none => rfl
  | some numbers => exact numbers.get fits

end Numbers

namespace Graph

theorem trace_origin_iff {origin : Origin} {trace : Trace} :
    graph.traceOrigin flatten node origin = some trace ↔
      graph.Ends flatten node origin trace := by
  unfold traceOrigin Ends
  rw [Option.bind_eq_bind, Option.bind_eq_some_iff]
  rfl

theorem ends_unique {origin : Origin} {left right : Trace}
    (first : graph.Ends flatten node origin left) (second : graph.Ends flatten node origin right) :
    left = right := by
  rw [← trace_origin_iff] at first second
  rw [first] at second
  exact Option.some.inj second

theorem trace_segment_of_ends {segment : Segment} {origin : Origin} {trace : Trace}
    (mapped : segment.origin = some origin) (ends : graph.Ends flatten node origin trace) :
    graph.traceSegment flatten node segment = some ⟨segment.generatedColumn, trace⟩ := by
  simp [traceSegment, mapped, trace_origin_iff.2 ends]

theorem trace_segment_of_astray {segment : Segment} {origin : Origin}
    (mapped : segment.origin = some origin)
    (astray : ∀ trace, ¬graph.Ends flatten node origin trace) :
    graph.traceSegment flatten node segment = none := by
  have nothing : graph.traceOrigin flatten node origin = none := by
    rw [Option.eq_none_iff_forall_ne_some]
    intro trace found
    exact astray trace (trace_origin_iff.1 found)
  simp [traceSegment, mapped, nothing]

theorem of_trace_segment {segment : Segment} {reached : TracedSegment}
    (traced : graph.traceSegment flatten node segment = some reached) :
    ∃ origin, segment.origin = some origin ∧
      reached.generatedColumn = segment.generatedColumn ∧
      graph.Ends flatten node origin reached.trace := by
  unfold traceSegment at traced
  simp only [Option.bind_eq_bind, Option.bind_eq_some_iff, Option.pure_def,
    Option.some.injEq] at traced
  rcases traced with ⟨origin, mapped, trace, ends, rfl⟩
  exact ⟨origin, mapped, rfl, trace_origin_iff.1 ends⟩

theorem trace_line_bare {segment : Segment} {line : Line} (bare : segment.origin = none) :
    graph.traceLine flatten node (segment :: line) = graph.traceLine flatten node line := by
  simp [traceLine, bare]

theorem trace_line_mapped {segment : Segment} {line : Line} {origin : Origin}
    (mapped : segment.origin = some origin) :
    graph.traceLine flatten node (segment :: line) =
      graph.traceSegment flatten node segment :: graph.traceLine flatten node line := by
  simp [traceLine, mapped]

end Graph

theorem stands_segment {old : Segment} {trace : Trace} (source : trace.node ∈ sources)
    (name : ∀ name, trace.name = some name → name ∈ names) :
    Stands sources names old trace
      (TracedLines.segment sources names ⟨old.generatedColumn, trace⟩)
      { source := TracedLines.number sources trace.node
        line := trace.line - 1
        column := trace.column
        name := trace.name.map (TracedLines.number names) } := by
  refine ⟨rfl, rfl, Numbers.of_mem source, rfl, rfl, ?_⟩
  cases named : trace.name with
  | none => exact Option.Rel.none
  | some text => exact Option.Rel.some (Numbers.of_mem (name text named))

def Numbered (sources : List NodeId) (names : List String)
    (attempts : List (Option TracedSegment)) : Prop :=
  ∀ traced, some traced ∈ attempts → traced.trace.node ∈ sources ∧
    ∀ name, traced.trace.name = some name → name ∈ names

theorem flat_line_of_trace_line (line : Line)
    (numbered : Numbered sources names (graph.traceLine flatten node line)) :
    FlatLine graph flatten node sources names line
      (((graph.traceLine flatten node line).flatMap Option.toList).map
        (TracedLines.segment sources names))
      ((graph.traceLine flatten node line).countP (·.isNone)) := by
  induction line with
  | nil => exact .nil
  | cons segment line induction =>
      cases mapped : segment.origin with
      | none =>
          rw [Graph.trace_line_bare mapped] at numbered ⊢
          exact .bare mapped (induction numbered)
      | some origin =>
          rw [Graph.trace_line_mapped mapped] at numbered ⊢
          have rest := induction fun traced member =>
            numbered traced (List.mem_cons_of_mem _ member)
          by_cases found : ∃ trace, graph.Ends flatten node origin trace
          · obtain ⟨trace, ends⟩ := found
            rw [Graph.trace_segment_of_ends mapped ends] at numbered ⊢
            obtain ⟨source, name⟩ := numbered _ (List.mem_cons_self ..)
            simp only [List.flatMap_cons, Option.toList_some, List.cons_append, List.nil_append,
              List.map_cons, List.countP_cons, Option.isNone_some, Bool.false_eq_true, if_false,
              Nat.add_zero]
            exact .kept mapped ends (stands_segment source name) rest
          · have astray := not_exists.1 found
            rw [Graph.trace_segment_of_astray mapped astray]
            simp only [List.flatMap_cons, Option.toList_none, List.nil_append, List.countP_cons,
              Option.isNone_none, if_true]
            exact .lost mapped astray rest

theorem flat_lines_of_trace_lines (lines : Mappings)
    (numbered : ∀ line ∈ lines, Numbered sources names (graph.traceLine flatten node line)) :
    FlatLines graph flatten node sources names lines
      ((graph.traceLines flatten node lines).lines.map
        (·.map (TracedLines.segment sources names)))
      (graph.traceLines flatten node lines).untraceable := by
  induction lines with
  | nil => exact .nil
  | cons line lines induction =>
      have first := flat_line_of_trace_line line (numbered line (List.mem_cons_self ..))
      have rest := induction fun other member => numbered other (List.mem_cons_of_mem _ member)
      simp only [Graph.traceLines, List.map_cons, List.flatten_cons, List.countP_append]
      exact .cons first rest

theorem mem_traces_of_mem_attempts {lines : Mappings} {line : Line} {traced : TracedSegment}
    (inside : line ∈ lines) (member : some traced ∈ graph.traceLine flatten node line) :
    traced.trace ∈ (graph.traceLines flatten node lines).traces := by
  have found : traced ∈ (graph.traceLine flatten node line).flatMap Option.toList :=
    List.mem_flatMap.2 ⟨some traced, member, by simp⟩
  simp only [TracedLines.traces, Graph.traceLines, List.map_map, List.mem_map, List.mem_flatten,
    Function.comp_apply]
  exact ⟨traced, ⟨_, ⟨line, inside, rfl⟩, found⟩, rfl⟩

theorem numbered_trace_lines (lines : Mappings) :
    ∀ line ∈ lines,
      Numbered (graph.traceLines flatten node lines).sources
        (graph.traceLines flatten node lines).names (graph.traceLine flatten node line) := by
  intro line inside traced member
  have reached := mem_traces_of_mem_attempts inside member
  constructor
  · rw [TracedLines.sources, List.mem_eraseDups]
    exact List.mem_map_of_mem reached
  · intro name named
    rw [TracedLines.names, List.mem_eraseDups]
    exact List.mem_filterMap.2 ⟨traced.trace, reached, named⟩

theorem flat_lines_of_mappings (lines : Mappings) :
    FlatLines graph flatten node (graph.traceLines flatten node lines).sources
      (graph.traceLines flatten node lines).names lines
      (graph.traceLines flatten node lines).mappings
      (graph.traceLines flatten node lines).untraceable :=
  flat_lines_of_trace_lines lines (numbered_trace_lines lines)

namespace FlatLines

variable {lines flats : Mappings} {lost : Nat}

theorem length_eq (flat : FlatLines graph flatten node sources names lines flats lost) :
    flats.length = lines.length := by
  induction flat with
  | nil => rfl
  | cons first rest induction => rw [List.length_cons, List.length_cons, induction]

theorem line_of_get (flat : FlatLines graph flatten node sources names lines flats lost)
    {number : Nat} {line : Line} (found : lines[number]? = some line) :
    ∃ new count, flats[number]? = some new ∧
      FlatLine graph flatten node sources names line new count := by
  induction flat generalizing number with
  | nil => cases found
  | @cons first new _ _ count _ flat rest induction =>
      cases number with
      | zero =>
          rw [List.getElem?_cons_zero, Option.some.injEq] at found
          rw [← found]
          exact ⟨new, count, rfl, flat⟩
      | succ number =>
          rw [List.getElem?_cons_succ] at found ⊢
          exact induction found

end FlatLines

theorem FlatLine.count_eq {line flat : Line} {lost : Nat}
    (flattened : FlatLine graph flatten node sources names line flat lost) :
    flat.length + lost = line.countP (·.origin.isSome) := by
  induction flattened with
  | nil => rfl
  | bare bare rest induction =>
      rw [List.countP_cons, bare, induction]
      rfl
  | lost mapped astray rest induction =>
      rw [List.countP_cons, mapped, ← induction]
      rfl
  | kept mapped ends stands rest induction =>
      rw [List.countP_cons, mapped, ← induction, List.length_cons, Nat.add_right_comm]
      rfl

theorem FlatLines.count_eq {lines flats : Mappings} {lost : Nat}
    (flat : FlatLines graph flatten node sources names lines flats lost) :
    Mappings.segmentCount flats + lost = Mappings.mappedCount lines := by
  induction flat with
  | nil => rfl
  | cons first rest induction =>
      have head := first.count_eq
      simp only [Mappings.segmentCount, Mappings.mappedCount, List.map_cons, List.sum_cons]
        at induction ⊢
      omega

namespace Chain

variable {chain : Chain} {options : Options} {map rootMap : SourceMap} {lines : Mappings}

theorem flattenable_eq_some_iff :
    chain.flattenable? flatten = some (node, rootMap, lines) ↔
      chain.rootNode? = some node ∧ node.map = some rootMap ∧ node.mappings = some lines ∧
        chain.graph.isTerminal (if flatten = .off then .full else flatten) chain.root = false := by
  simp only [flattenable?, Option.bind_eq_bind, Option.bind_eq_some_iff,
    Option.ite_none_left_eq_some, Option.some.injEq, Prod.mk.injEq, Bool.not_eq_true]
  constructor
  · rintro ⟨_, present, _, mapped, _, read, inner, rfl, rfl, rfl⟩
    exact ⟨present, mapped, read, inner⟩
  · rintro ⟨present, mapped, read, inner⟩
    exact ⟨node, present, rootMap, mapped, lines, read, inner, rfl, rfl, rfl⟩

def traced? (chain : Chain) (flatten : Flatten) : Option TracedLines :=
  (chain.flattenable? flatten).map fun (node, _, lines) =>
    chain.graph.traceLines flatten node lines

/-- The nodes that the sources of a flattened map are rendered from. -/
def flatSources (chain : Chain) (flatten : Flatten) : List NodeId :=
  ((chain.traced? flatten).map (·.sources)).getD []

theorem of_apply (active : options.flatten ≠ .off)
    (applied : (chain.apply options).2 = some map) :
    ∃ node rootMap lines,
      chain.flattenable? options.flatten = some (node, rootMap, lines) ∧
      (chain.apply options).1.untraceable =
        (chain.graph.traceLines options.flatten node lines).untraceable ∧
      chain.flatSources options.flatten =
        (chain.graph.traceLines options.flatten node lines).sources ∧
      map = chain.mapOf options (chain.graph.traceLines options.flatten node lines).mappings
        (chain.graph.traceLines options.flatten node lines).sources
        (chain.graph.traceLines options.flatten node lines).names := by
  unfold apply at applied ⊢
  cases found : chain.flattenable? options.flatten with
  | none =>
      rw [found] at applied
      cases applied
  | some root =>
      obtain ⟨node, rootMap, lines⟩ := root
      rw [found] at applied
      simp only [if_neg active, Option.some.injEq] at applied ⊢
      refine ⟨node, rootMap, lines, rfl, rfl, ?_, applied.symm⟩
      rw [flatSources, traced?, found]
      rfl

/-- The lines of a flattened map, the nodes and names that they number, and what is lost. -/
theorem apply_flattens_exactly (active : options.flatten ≠ .off)
    (decoded : chain.graph.Decoded) (applied : (chain.apply options).2 = some map) :
    ∃ node lines flats,
      chain.rootNode? = some node ∧ node.mappings = some lines ∧
      Mappings.decode map.mappings = .ok flats ∧ flats.length = lines.length ∧
      FlatLines chain.graph options.flatten node (chain.flatSources options.flatten) map.names
        lines flats (chain.apply options).1.untraceable ∧
      Mappings.segmentCount flats + (chain.apply options).1.untraceable =
        Mappings.mappedCount lines ∧
      map.sources = (chain.flatSources options.flatten).map (chain.renderSource options) ∧
      (chain.flatSources options.flatten).Nodup ∧ map.names.Nodup := by
  obtain ⟨node, rootMap, lines, found, count, sources, same⟩ := of_apply active applied
  obtain ⟨present, mapped, read, -⟩ := flattenable_eq_some_iff.1 found
  have flat : FlatLines chain.graph options.flatten node _ _ lines _ _ :=
    flat_lines_of_mappings lines
  have filled : lines ≠ [] :=
    Mappings.decoded_ne_nil (decoded chain.root node rootMap lines present mapped read)
  have kept : (chain.graph.traceLines options.flatten node lines).mappings ≠ [] := by
    intro empty
    have length := flat.length_eq
    rw [empty] at length
    exact filled (List.length_eq_zero_iff.1 length.symm)
  rw [count, sources, same]
  exact ⟨node, lines, _, present, read, Mappings.decode_encode_of_ne_nil kept, flat.length_eq,
    flat, flat.count_eq, rfl, TracedLines.nodup_sources _, TracedLines.nodup_names _⟩

def threeFiles : Chain := ⟨Graph.threeFiles, 0, 0, ⟨"/"⟩⟩

theorem three_files_decoded : threeFiles.graph.Decoded := by
  intro id node map lines present mapped read
  match id with
  | 0 | 1 =>
      cases present
      cases mapped
      cases read
      decide
  | 2 =>
      cases present
      cases mapped
  | _ + 3 => cases present

theorem three_files_flatten_exactly :
    ({} : Options).flatten ≠ .off ∧ threeFiles.graph.Decoded ∧
      ∃ map flats, (threeFiles.apply {}).2 = some map ∧
        Mappings.decode map.mappings = .ok flats ∧ flats.length = 1 ∧
        Mappings.segmentCount flats = 1 ∧ (threeFiles.apply {}).1.untraceable = 1 := by
  obtain ⟨map, applied⟩ : ∃ map, (threeFiles.apply {}).2 = some map := ⟨_, rfl⟩
  have active : ({} : Options).flatten ≠ .off := by decide
  obtain ⟨node, lines, flats, present, read, decoded, length, -, count, -⟩ :=
    apply_flattens_exactly active three_files_decoded applied
  cases present
  cases read
  have lost : (threeFiles.apply {}).1.untraceable = 1 := by decide
  refine ⟨active, three_files_decoded, map, flats, applied, decoded, length, ?_, lost⟩
  rw [lost] at count
  exact Nat.succ.inj count

end Chain

end MapChain
