import MapChain.Graph.Trace
import MapChain.Proofs.Graph.Reach

/-!
Tracing told by rules, without a bound on the hops. A terminal node is where a position came from;
any other position leads on to a source, by the segment at its column or, where none begins there,
by the first segment of its line. Main statement: what `trace` finds follows from the rules, and
from a node that no circle can be reached from it finds all that follows.
-/

set_option autoImplicit false

namespace MapChain

/-- The first segment of a line that begins at a column, where no earlier one lies beyond. -/
def Line.Begins (line : Line) (column : UInt32) (segment : Segment) : Prop :=
  ∃ before after, line = before ++ segment :: after ∧ segment.generatedColumn = column ∧
    ∀ earlier ∈ before, earlier.generatedColumn < column

namespace Line

theorem Begins.mem {line : Line} {column : UInt32} {segment : Segment}
    (begins : line.Begins column segment) : segment ∈ line := by
  obtain ⟨before, after, whole, -⟩ := begins
  rw [whole]
  exact List.mem_append_cons_self

theorem begins_cons_iff {first segment : Segment} {line : Line} {column : UInt32} :
    Begins (first :: line) column segment ↔
      (first = segment ∧ first.generatedColumn = column) ∨
        (first.generatedColumn < column ∧ Begins line column segment) := by
  constructor
  · rintro ⟨before, after, whole, here, less⟩
    cases before with
    | nil =>
        rw [List.nil_append, List.cons.injEq] at whole
        exact Or.inl ⟨whole.1, by rw [whole.1, here]⟩
    | cons other before =>
        rw [List.cons_append, List.cons.injEq] at whole
        rw [whole.1]
        exact Or.inr ⟨less other (by simp), before, after, whole.2, here,
          fun earlier member => less earlier (List.mem_cons_of_mem _ member)⟩
  · rintro (⟨same, here⟩ | ⟨below, before, after, whole, here, less⟩)
    · exact ⟨[], line, by rw [same, List.nil_append], by rw [← same, here], by simp⟩
    · refine ⟨first :: before, after, by rw [whole, List.cons_append], here, ?_⟩
      intro earlier member
      rcases List.mem_cons.1 member with same | later
      · rw [same]
        exact below
      · exact less earlier later

theorem at_eq_some_iff {line : Line} {column : UInt32} {segment : Segment} :
    line.at? column = some segment ↔ line.Begins column segment := by
  induction line with
  | nil =>
      constructor
      · intro found
        cases found
      · rintro ⟨before, after, whole, -⟩
        simp at whole
  | cons first line induction =>
      rw [begins_cons_iff, ← induction]
      by_cases here : first.generatedColumn = column
      · simp [at?, here]
      · by_cases below : first.generatedColumn < column
        · have kept : first.generatedColumn ≤ column := UInt32.le_of_lt below
          simp [at?, kept, here, below]
        · have beyond : ¬first.generatedColumn ≤ column := by
            intro kept
            rcases UInt32.lt_or_eq_of_le kept with less | same
            · exact below less
            · exact here same
          simp [at?, beyond, here, below]

theorem at_eq_none_iff {line : Line} {column : UInt32} :
    line.at? column = none ↔ ∀ segment, ¬line.Begins column segment := by
  rw [Option.eq_none_iff_forall_ne_some]
  exact forall_congr' fun segment => not_congr at_eq_some_iff

end Line

def Node.nameOf? (node : Node) (origin : Origin) : Option String :=
  origin.name.bind fun index => node.map.bind (·.name? index.toNat)

/-- The position that a position of an inner node leads on to. -/
inductive Node.Leads (node : Node) (position : Position) : Position → Prop where
  /-- By the segment at its column. -/
  | exact {lines : Mappings} {line : Line} {column : UInt32} {segment : Segment} {origin : Origin}
      {child : NodeId} (mapped : node.mappings = some lines)
      (found : lines[position.line.toNat]? = some line) (asked : position.column = some column)
      (begins : line.Begins column segment) (traced : segment.origin = some origin)
      (source : node.sources[origin.source.toNat]? = some child) :
      Leads node position
        ⟨child, origin.line, some origin.column, (node.nameOf? origin).or position.name⟩
  /-- By the first segment of its line, and without a column from there on. -/
  | fallback {lines : Mappings} {line : Line} {segment : Segment} {origin : Origin}
      {child : NodeId} (mapped : node.mappings = some lines)
      (found : lines[position.line.toNat]? = some line)
      (missed : ∀ column, position.column = some column → ∀ other, ¬line.Begins column other)
      (first : line.head? = some segment) (traced : segment.origin = some origin)
      (source : node.sources[origin.source.toNat]? = some child) :
      Leads node position ⟨child, origin.line, none, (node.nameOf? origin).or position.name⟩

/-- What a position came from. -/
inductive Graph.Traces (graph : Graph) (flatten : Flatten) : Position → Trace → Prop where
  | arrived {position : Position} {node : Node} (present : graph.node? position.node = some node)
      (terminal : graph.isTerminal flatten position.node = true) :
      Traces graph flatten position
        ⟨position.node, node.path, position.line + 1, position.column.getD 0, position.name⟩
  | onward {position next : Position} {node : Node} {trace : Trace}
      (present : graph.node? position.node = some node)
      (inner : graph.isTerminal flatten position.node = false)
      (leads : node.Leads position next) (rest : Traces graph flatten next trace) :
      Traces graph flatten position trace

namespace Graph

variable {graph : Graph} {flatten : Flatten} {position next : Position} {node : Node}
  {trace : Trace}

theorem segment_at_exact_iff {line : Line} {column : Option UInt32} {segment : Segment} :
    segmentAt? line column = some (segment, true) ↔
      ∃ asked, column = some asked ∧ line.Begins asked segment := by
  unfold segmentAt?
  cases column with
  | none => cases line <;> simp
  | some asked =>
      cases found : line.at? asked with
      | some other =>
          have begins := Line.at_eq_some_iff.1 found
          simp only [Option.bind_some, found, Option.some.injEq, Prod.mk.injEq, and_true,
            exists_eq_left']
          rw [← Line.at_eq_some_iff, found, Option.some.injEq]
      | none =>
          have missed := Line.at_eq_none_iff.1 found segment
          simp [found, missed]

theorem segment_at_fallback_iff {line : Line} {column : Option UInt32} {segment : Segment} :
    segmentAt? line column = some (segment, false) ↔
      (∀ asked, column = some asked → ∀ other, ¬line.Begins asked other) ∧
        line.head? = some segment := by
  unfold segmentAt?
  cases column with
  | none => cases line <;> simp
  | some asked =>
      cases found : line.at? asked with
      | some other =>
          have begins := Line.at_eq_some_iff.1 found
          simp only [Option.bind_some, found, Option.some.injEq, Prod.mk.injEq,
            Bool.true_eq_false, and_false, false_iff]
          intro fallback
          exact fallback.1 asked rfl other begins
      | none =>
          have missed := Line.at_eq_none_iff.1 found
          simp [found, missed]

theorem onward_eq_some_iff :
    onward? node position = some next ↔
      ∃ lines line segment exact origin child, node.mappings = some lines ∧
        lines[position.line.toNat]? = some line ∧
        segmentAt? line position.column = some (segment, exact) ∧
        segment.origin = some origin ∧ node.sources[origin.source.toNat]? = some child ∧
        next = ⟨child, origin.line, if exact then some origin.column else none,
          (node.nameOf? origin).or position.name⟩ := by
  simp only [onward?, Option.bind_eq_bind, Option.bind_eq_some_iff, Option.pure_def,
    Option.some.injEq, Prod.exists]
  constructor
  · rintro ⟨lines, mapped, line, found, segment, exact, at_, origin, traced, child, source, rfl⟩
    exact ⟨lines, line, segment, exact, origin, child, mapped, found, at_, traced, source, rfl⟩
  · rintro ⟨lines, line, segment, exact, origin, child, mapped, found, at_, traced, source, rfl⟩
    exact ⟨lines, mapped, line, found, segment, exact, at_, origin, traced, child, source, rfl⟩

theorem leads_iff_onward : node.Leads position next ↔ onward? node position = some next := by
  rw [onward_eq_some_iff]
  constructor
  · intro leads
    cases leads with
    | exact mapped found asked begins traced source =>
        exact ⟨_, _, _, true, _, _, mapped, found, segment_at_exact_iff.2 ⟨_, asked, begins⟩,
          traced, source, rfl⟩
    | fallback mapped found missed first traced source =>
        exact ⟨_, _, _, false, _, _, mapped, found, segment_at_fallback_iff.2 ⟨missed, first⟩,
          traced, source, rfl⟩
  · rintro ⟨lines, line, segment, exact, origin, child, mapped, found, at_, traced, source, rfl⟩
    cases exact with
    | true =>
        obtain ⟨asked, same, begins⟩ := segment_at_exact_iff.1 at_
        exact .exact mapped found same begins traced source
    | false =>
        obtain ⟨missed, first⟩ := segment_at_fallback_iff.1 at_
        exact .fallback mapped found missed first traced source

theorem source_of_leads (present : graph.node? position.node = some node)
    (leads : node.Leads position next) : graph.Source position.node next.node := by
  cases leads with
  | exact _ _ _ _ _ source => exact source_of_get present source
  | fallback _ _ _ _ _ source => exact source_of_get present source

theorem hop_of_terminal (present : graph.node? position.node = some node)
    (terminal : graph.isTerminal flatten position.node = true) :
    graph.hop flatten position =
      .arrived ⟨position.node, node.path, position.line + 1, position.column.getD 0,
        position.name⟩ := by
  simp [hop, present, terminal]

theorem hop_of_leads (present : graph.node? position.node = some node)
    (inner : graph.isTerminal flatten position.node = false) (leads : node.Leads position next) :
    graph.hop flatten position = .onward next := by
  simp [hop, present, inner, leads_iff_onward.1 leads]

theorem of_hop_arrived (arrived : graph.hop flatten position = .arrived trace) :
    graph.Traces flatten position trace := by
  unfold hop at arrived
  split at arrived
  · cases arrived
  · next node present =>
      split at arrived
      · next terminal =>
          cases arrived
          exact .arrived present terminal
      · split at arrived <;> cases arrived

theorem of_hop_onward (onward : graph.hop flatten position = .onward next) :
    ∃ node, graph.node? position.node = some node ∧
      graph.isTerminal flatten position.node = false ∧ node.Leads position next := by
  unfold hop at onward
  split at onward
  · cases onward
  · next node present =>
      split at onward
      · cases onward
      · next inner =>
          split at onward
          · cases onward
          · next found =>
              cases onward
              exact ⟨node, present, Bool.eq_false_iff.2 inner, leads_iff_onward.2 found⟩

theorem traces_of_trace_within {hops : Nat}
    (found : graph.traceWithin flatten hops position = some trace) :
    graph.Traces flatten position trace := by
  induction hops generalizing position with
  | zero => cases found
  | succ hops induction =>
      rw [traceWithin] at found
      cases step : graph.hop flatten position with
      | arrived reached =>
          rw [step] at found
          cases found
          exact of_hop_arrived step
      | unmapped =>
          rw [step] at found
          cases found
      | onward next =>
          rw [step] at found
          obtain ⟨node, present, inner, leads⟩ := of_hop_onward step
          exact .onward present inner leads (induction found)

/-- The nodes that are passed behind the first one, with enough hops to pass them all. -/
theorem walk_of_traces (traces : graph.Traces flatten position trace) :
    ∃ walk, (position.node :: walk).IsChain graph.Source ∧
      (∀ id ∈ position.node :: walk, id < graph.size) ∧
      ∀ hops, walk.length < hops → graph.traceWithin flatten hops position = some trace := by
  induction traces with
  | arrived present terminal =>
      refine ⟨[], List.isChain_singleton _, ?_, ?_⟩
      · intro id member
        rw [List.mem_singleton.1 member]
        exact lt_size_of_node present
      · intro hops enough
        cases hops with
        | zero => omega
        | succ hops => rw [traceWithin, hop_of_terminal present terminal]
  | @onward position next node trace present inner leads rest induction =>
      obtain ⟨walk, linked, inside, within⟩ := induction
      refine ⟨next.node :: walk, ?_, ?_, ?_⟩
      · exact List.isChain_cons_cons.2 ⟨source_of_leads present leads, linked⟩
      · intro id member
        rcases List.mem_cons.1 member with same | later
        · rw [same]
          exact lt_size_of_node present
        · exact inside id later
      · intro hops enough
        cases hops with
        | zero => omega
        | succ hops =>
            rw [List.length_cons] at enough
            rw [traceWithin, hop_of_leads present inner leads]
            exact within hops (by omega)

theorem trace_of_traces (straight : ∀ id, graph.Reaches position.node id → ¬graph.OnCycle id)
    (traces : graph.Traces flatten position trace) :
    graph.trace flatten position = some trace := by
  obtain ⟨walk, linked, inside, within⟩ := walk_of_traces traces
  have nodup : (position.node :: walk).Nodup :=
    nodup_walk linked fun id member => straight id (reaches_of_walk linked member)
  have short := walk_length_le nodup inside
  rw [List.length_cons] at short
  exact within _ (by omega)

/-- The bound on the hops is met only on ways that run in a circle. -/
theorem trace_refines_rules (graph : Graph) (flatten : Flatten) (position : Position)
    (trace : Trace) :
    (graph.trace flatten position = some trace → graph.Traces flatten position trace) ∧
      ((∀ id, graph.Reaches position.node id → ¬graph.OnCycle id) →
        graph.Traces flatten position trace → graph.trace flatten position = some trace) :=
  ⟨traces_of_trace_within, trace_of_traces⟩

/-- A file that came from a second one, which came from a third. The first has three segments: one
with a name, one without an origin, and one whose source is missing. -/
def threeFiles : Graph where
  nodes := #[
    { path := some ⟨"/last.js"⟩
      content := some "c"
      map := some ⟨3, none, [some "middle.js"], [], ["outer"], "AAAAA,E,EKAA", none⟩
      mappings := some [[⟨0, some ⟨0, 0, 0, some 0⟩⟩, ⟨2, none⟩, ⟨4, some ⟨5, 0, 0, none⟩⟩]]
      sources := [1]
      state := .loaded },
    { path := some ⟨"/middle.js"⟩
      content := some "b"
      map := some ⟨3, none, [some "first.js"], [], [], "AACE", none⟩
      mappings := some [[⟨0, some ⟨0, 1, 2, none⟩⟩]]
      sources := [2]
      state := .loaded },
    { path := some ⟨"/first.js"⟩
      content := some "a"
      map := none
      mappings := none
      sources := []
      state := .loaded }]
  index := [(⟨"/first.js"⟩, 2), (⟨"/middle.js"⟩, 1), (⟨"/last.js"⟩, 0)]

theorem three_files_descend {parent child : NodeId} (source : threeFiles.Source parent child) :
    parent < child := by
  obtain ⟨node, present, member⟩ := source
  match parent with
  | 0 | 1 =>
      cases present
      rw [List.mem_singleton.1 member]
      decide
  | 2 =>
      cases present
      cases member
  | _ + 3 => cases present

theorem three_files_straight (id : NodeId) : ¬threeFiles.OnCycle id := by
  intro cycle
  have descend : ∀ later, Relation.TransGen threeFiles.Source id later → id < later := by
    intro later leads
    induction leads with
    | single step => exact three_files_descend step
    | tail _ step induction => exact Nat.lt_trans induction (three_files_descend step)
  exact Nat.lt_irrefl id (descend id cycle)

theorem three_files_refine_rules :
    (∀ id, threeFiles.Reaches 0 id → ¬threeFiles.OnCycle id) ∧
      threeFiles.Traces .full ⟨0, 0, some 0, none⟩
        ⟨2, some ⟨"/first.js"⟩, 2, 2, some "outer"⟩ ∧
      threeFiles.trace .full ⟨0, 0, some 0, none⟩ =
        some ⟨2, some ⟨"/first.js"⟩, 2, 2, some "outer"⟩ := by
  have straight : ∀ id, threeFiles.Reaches 0 id → ¬threeFiles.OnCycle id :=
    fun id _ => three_files_straight id
  obtain ⟨sound, complete⟩ := trace_refines_rules threeFiles .full ⟨0, 0, some 0, none⟩
    ⟨2, some ⟨"/first.js"⟩, 2, 2, some "outer"⟩
  have traces := sound (by decide)
  exact ⟨straight, traces, complete straight traces⟩

end Graph

end MapChain
