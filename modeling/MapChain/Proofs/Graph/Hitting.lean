import MapChain.Mappings.Text
import MapChain.Proofs.Graph.Tracing

/-!
Segments that begin just at the column that is asked for. The search through a line ends at the
first segment beyond that column, which loses nothing on a line whose columns ascend; but a text may
also write them in another order. Main statement: the first segment at a column is followed unless
one before it lies beyond, and then the first segment of the line stands in for it.
-/

set_option autoImplicit false

namespace MapChain

namespace Line

variable {first segment : Segment} {line : Line} {column : UInt32}

def firstAt? (line : Line) (column : UInt32) : Option Segment :=
  line.find? (·.generatedColumn = column)

/-- Before the first segment at a column there is one beyond it. -/
def Overtaken (line : Line) (column : UInt32) : Prop :=
  ∃ earlier ∈ line.takeWhile (·.generatedColumn ≠ column), column < earlier.generatedColumn

instance (line : Line) (column : UInt32) : Decidable (line.Overtaken column) :=
  inferInstanceAs (Decidable (∃ earlier ∈ line.takeWhile (·.generatedColumn ≠ column),
    column < earlier.generatedColumn))

theorem first_at_cons_of_ne (apart : first.generatedColumn ≠ column) :
    firstAt? (first :: line) column = firstAt? line column := by
  simp [firstAt?, apart]

theorem overtaken_cons_of_ne (apart : first.generatedColumn ≠ column) :
    Overtaken (first :: line) column ↔
      column < first.generatedColumn ∨ Overtaken line column := by
  unfold Overtaken
  rw [List.takeWhile_cons_of_pos (by simpa using apart), List.exists_mem_cons_iff]

/-- The search finds the first segment at a column unless it is overtaken. -/
theorem at_eq (line : Line) (column : UInt32) :
    line.at? column = if line.Overtaken column then none else line.firstAt? column := by
  induction line with
  | nil => simp [at?, firstAt?]
  | cons first line induction =>
      by_cases here : first.generatedColumn = column
      · have free : ¬Overtaken (first :: line) column := by
          simp [Overtaken, here]
        rw [if_neg free]
        simp [at?, firstAt?, here]
      · rw [first_at_cons_of_ne here]
        by_cases beyond : column < first.generatedColumn
        · have stopped : ¬first.generatedColumn ≤ column := UInt32.not_le.2 beyond
          rw [if_pos ((overtaken_cons_of_ne here).2 (Or.inl beyond))]
          simp [at?, stopped]
        · have kept : first.generatedColumn ≤ column := UInt32.not_lt.1 beyond
          have alike : Overtaken (first :: line) column ↔ Overtaken line column := by
            rw [overtaken_cons_of_ne here, or_iff_right beyond]
          have passed : at? (first :: line) column = at? line column := by
            simp [at?, kept, here]
          rw [passed, induction]
          exact if_congr alike.symm rfl rfl

theorem not_overtaken_of_ascending
    (ascending : line.Pairwise fun left right => left.generatedColumn ≤ right.generatedColumn)
    (hit : line.firstAt? column = some segment) : ¬line.Overtaken column := by
  have here : segment.generatedColumn = column := by simpa using List.find?_some hit
  induction line with
  | nil => cases hit
  | cons first line induction =>
      obtain ⟨below, ascending⟩ := List.pairwise_cons.1 ascending
      by_cases same : first.generatedColumn = column
      · simp [Overtaken, same]
      · rw [first_at_cons_of_ne same] at hit
        rw [overtaken_cons_of_ne same, not_or, UInt32.not_lt, ← here]
        constructor
        · exact below segment (List.mem_of_find?_eq_some hit)
        · rw [here]
          exact induction ascending hit

end Line

/-- The way on from a position of `node` by a segment, at its column or for its line alone. -/
def Node.by? (node : Node) (position : Position) (segment : Segment) (exact : Bool) :
    Option Position := do
  let origin ← segment.origin
  let child ← node.sources[origin.source.toNat]?
  return ⟨child, origin.line, if exact then some origin.column else none,
    (node.nameOf? origin).or position.name⟩

namespace Graph

variable {graph : Graph} {flatten : Flatten} {position : Position} {node : Node}
  {lines : Mappings} {line : Line} {column : UInt32} {segment first : Segment} {exact : Bool}

theorem segment_at_eq (hit : line.firstAt? column = some segment) :
    segmentAt? line (some column) =
      if line.Overtaken column then line.head?.map (·, false) else some (segment, true) := by
  rw [segmentAt?, Option.bind_some, Line.at_eq, hit]
  by_cases overtaken : line.Overtaken column
  · rw [if_pos overtaken, if_pos overtaken]
  · rw [if_neg overtaken, if_neg overtaken]

theorem trace_of_segment_at (present : graph.node? position.node = some node)
    (inner : graph.isTerminal flatten position.node = false) (mapped : node.mappings = some lines)
    (found : lines[position.line.toNat]? = some line)
    (chosen : segmentAt? line position.column = some (segment, exact)) :
    graph.trace flatten position =
      (node.by? position segment exact).bind (graph.traceWithin flatten graph.size) := by
  have ahead : onward? node position = node.by? position segment exact := by
    simp only [onward?, mapped, found, chosen, Option.bind_eq_bind, Option.bind_some]
    rfl
  rw [Graph.trace, traceWithin, hop, present]
  dsimp only
  rw [inner, ahead]
  cases node.by? position segment exact <;> rfl

/-- A position at the column of a segment goes on by the first such segment, unless one before it
lies beyond; then it goes on by the first segment of the line and loses its column. Nothing of the
kind happens on lines whose columns ascend. -/
theorem hit_followed_iff (present : graph.node? position.node = some node)
    (inner : graph.isTerminal flatten position.node = false) (mapped : node.mappings = some lines)
    (found : lines[position.line.toNat]? = some line) (asked : position.column = some column)
    (hit : line.firstAt? column = some segment) :
    (segmentAt? line position.column = some (segment, true) ↔ ¬line.Overtaken column) ∧
      (¬line.Overtaken column → graph.trace flatten position =
        (node.by? position segment true).bind (graph.traceWithin flatten graph.size)) ∧
      (line.Overtaken column → ∃ first, line.head? = some first ∧ graph.trace flatten position =
        (node.by? position first false).bind (graph.traceWithin flatten graph.size)) ∧
      (line.Pairwise (fun left right => left.generatedColumn ≤ right.generatedColumn) →
        ¬line.Overtaken column) := by
  have chosen := segment_at_eq hit
  rw [← asked] at chosen
  refine ⟨?_, fun free => ?_, fun overtaken => ?_, fun ascending => ?_⟩
  · rw [chosen]
    by_cases overtaken : line.Overtaken column
    · simp [overtaken]
    · simp [overtaken]
  · rw [if_neg free] at chosen
    exact trace_of_segment_at present inner mapped found chosen
  · rw [if_pos overtaken] at chosen
    have filled : line ≠ [] := by
      rintro rfl
      cases hit
    obtain ⟨first, rest, rfl⟩ := List.exists_cons_of_ne_nil filled
    exact ⟨first, rfl, trace_of_segment_at present inner mapped found chosen⟩
  · exact Line.not_overtaken_of_ascending ascending hit

def turnedLine : Line :=
  [⟨2, some ⟨0, 0, 0, none⟩⟩, ⟨4, some ⟨0, 1, 0, none⟩⟩, ⟨0, some ⟨0, 2, 0, none⟩⟩]

def turnedBack : Graph where
  nodes := #[
    { path := some ⟨"/out.js"⟩
      content := some "b"
      map := some ⟨3, none, [some "in.js"], [], [], "EAAA,EACA,JACA", none⟩
      mappings := some [turnedLine]
      sources := [1]
      state := .loaded },
    { path := some ⟨"/in.js"⟩
      content := some "a"
      map := none
      mappings := none
      sources := []
      state := .loaded }]
  index := [(⟨"/in.js"⟩, 1), (⟨"/out.js"⟩, 0)]

/-- What stands before the highest column is not beyond it. -/
theorem turned_back_followed :
    Mappings.decode "EAAA,EACA,JACA" = .ok [turnedLine] ∧
      turnedBack.isTerminal .full 0 = false ∧
      turnedLine.firstAt? 4 = some ⟨4, some ⟨0, 1, 0, none⟩⟩ ∧ ¬turnedLine.Overtaken 4 ∧
      segmentAt? turnedLine (some 4) = some (⟨4, some ⟨0, 1, 0, none⟩⟩, true) ∧
      turnedBack.trace .full ⟨0, 0, some 4, none⟩ =
        some ⟨1, some ⟨"/in.js"⟩, 2, 0, none⟩ := by
  have inner : turnedBack.isTerminal .full 0 = false := by decide
  have hit : turnedLine.firstAt? 4 = some ⟨4, some ⟨0, 1, 0, none⟩⟩ := by decide
  have free : ¬turnedLine.Overtaken 4 := by decide
  obtain ⟨chosen, followed, -⟩ :=
    @hit_followed_iff turnedBack .full ⟨0, 0, some 4, none⟩ _ _ _ _ _ rfl inner rfl rfl rfl hit
  exact ⟨by decide, inner, hit, free, chosen.2 free, (followed free).trans (by decide)⟩

/-- The segment at the column that the line goes back to is passed over: its way leads to the third
line, and the trace to the first one. -/
theorem turned_back_missed :
    Mappings.decode "EAAA,EACA,JACA" = .ok [turnedLine] ∧
      turnedBack.isTerminal .full 0 = false ∧
      (turnedBack.node? 0).bind (·.mappings) = some [turnedLine] ∧
      turnedLine.firstAt? 0 = some ⟨0, some ⟨0, 2, 0, none⟩⟩ ∧
      segmentAt? turnedLine (some 0) = some (⟨2, some ⟨0, 0, 0, none⟩⟩, false) ∧
      turnedBack.trace .full ⟨1, 2, some 0, none⟩ = some ⟨1, some ⟨"/in.js"⟩, 3, 0, none⟩ ∧
      turnedBack.trace .full ⟨0, 0, some 0, none⟩ =
        some ⟨1, some ⟨"/in.js"⟩, 1, 0, none⟩ := by
  decide

end Graph

end MapChain
