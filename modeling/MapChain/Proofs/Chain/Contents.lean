import MapChain.Proofs.Chain.Carrying

/-!
The contents of the sources that are found under the existing policy. A node is left under this
policy only where all its sources have content, so a way that has taken one step ends at a node with
content. Main statement: a map that is flattened under the existing policy carries the content of
each of its sources.
-/

set_option autoImplicit false

namespace MapChain

variable {graph : Graph} {chain : Chain} {options : Options} {map : SourceMap} {id : NodeId}

/-- The first step from an inner node leads to content, and all later ones keep to it. -/
theorem Graph.has_content_of_trace {position : Position} {trace : Trace}
    (inner : graph.isTerminal .existing position.node = false)
    (found : graph.trace .existing position = some trace) :
    graph.hasContent trace.node = true := by
  have traces := traces_of_trace_within found
  cases traces with
  | arrived present terminal =>
      rw [inner] at terminal
      cases terminal
  | onward present passed leads rest =>
      apply has_content_of_traces rest
      obtain ⟨node, there, -, -, -, complete⟩ := is_terminal_eq_false_iff.1 inner
      obtain ⟨parent, same, member⟩ := source_of_leads present leads
      rw [there] at same
      cases same
      exact complete rfl _ member

namespace Chain

theorem of_mem_flat_sources {flatten : Flatten} (member : id ∈ chain.flatSources flatten) :
    ∃ node rootMap lines origin trace,
      chain.flattenable? flatten = some (node, rootMap, lines) ∧
        chain.graph.Ends flatten node origin trace ∧ trace.node = id := by
  unfold flatSources traced? at member
  cases found : chain.flattenable? flatten with
  | none =>
      rw [found] at member
      cases member
  | some root =>
      obtain ⟨node, rootMap, lines⟩ := root
      rw [found] at member
      have reached : id ∈ (chain.graph.traceLines flatten node lines).sources := member
      rw [TracedLines.sources, List.mem_eraseDups] at reached
      obtain ⟨trace, inside, same⟩ := List.mem_map.1 reached
      obtain ⟨origin, ends⟩ := ends_of_mem_traces inside
      exact ⟨node, rootMap, lines, origin, trace, rfl, ends, same⟩

theorem has_content_of_mem_flat_sources (member : id ∈ chain.flatSources .existing) :
    chain.graph.hasContent id = true := by
  obtain ⟨node, rootMap, lines, origin, trace, found, ends, rfl⟩ := of_mem_flat_sources member
  obtain ⟨present, -, -, inner⟩ := flattenable_eq_some_iff.1 found
  exact Graph.has_content_of_ends present inner ends

theorem source_content_of_has_content (included : options.excludeContent = false)
    (content : chain.graph.hasContent id = true) :
    ∃ text, chain.sourceContent options id = some text := by
  unfold Graph.hasContent at content
  unfold sourceContent
  rw [included]
  cases present : chain.graph.node? id with
  | none =>
      rw [present] at content
      cases content
  | some node =>
      rw [present, Option.any_some] at content
      exact Option.isSome_iff_exists.1 content

/-- Under the existing policy every source of the flattened map stands there with its content, and
every trace from an inner node ends at a node with content. -/
theorem existing_embeds_contents (existing : options.flatten = .existing)
    (included : options.excludeContent = false)
    (applied : (chain.apply options).2 = some map) :
    map.sources = (chain.flatSources .existing).map (chain.renderSource options) ∧
      map.sourcesContent = (chain.flatSources .existing).map (chain.sourceContent options) ∧
      (∀ entry ∈ map.sourcesContent, ∃ text, entry = some text) ∧
      ∀ position trace, chain.graph.isTerminal .existing position.node = false →
        chain.graph.trace .existing position = some trace →
        ∃ node text, chain.graph.node? trace.node = some node ∧ node.content = some text := by
  have active : options.flatten ≠ .off := by
    rw [existing]
    decide
  obtain ⟨node, rootMap, lines, -, -, sources, same⟩ := of_apply active applied
  rw [existing] at sources same
  have contents : map.sourcesContent =
      (chain.flatSources .existing).map (chain.sourceContent options) := by
    rw [same, sources]
    rfl
  refine ⟨?_, contents, ?_, ?_⟩
  · rw [same, sources]
    rfl
  · intro entry member
    rw [contents] at member
    obtain ⟨id, inside, rfl⟩ := List.mem_map.1 member
    exact source_content_of_has_content included (has_content_of_mem_flat_sources inside)
  · intro position trace inner found
    have content := Graph.has_content_of_trace inner found
    unfold Graph.hasContent at content
    obtain ⟨last, present, filled⟩ := (Option.any_eq_true _ _).1 content
    obtain ⟨text, shown⟩ := Option.isSome_iff_exists.1 filled
    exact ⟨last, text, present, shown⟩

/-- A file that came from a second one, which came from a third that has no content. -/
def lostFirst : Chain where
  graph :=
    { nodes := #[
        { path := some ⟨"/last.js"⟩
          content := some "c"
          map := some ⟨3, none, [some "middle.js"], [], [], "AAAA,EACA", none⟩
          mappings := some [[⟨0, some ⟨0, 0, 0, none⟩⟩, ⟨2, some ⟨0, 1, 0, none⟩⟩]]
          sources := [1]
          state := .loaded },
        { path := some ⟨"/middle.js"⟩
          content := some "b"
          map := some ⟨3, none, [some "first.js"], [], [], "AAAA", none⟩
          mappings := some [[⟨0, some ⟨0, 0, 0, none⟩⟩]]
          sources := [2]
          state := .loaded },
        { path := some ⟨"/first.js"⟩
          content := none
          map := none
          mappings := none
          sources := []
          state := .loaded }]
      index := [(⟨"/first.js"⟩, 2), (⟨"/middle.js"⟩, 1), (⟨"/last.js"⟩, 0)] }
  root := 0
  untraceable := 0
  directory := ⟨"/"⟩

/-- The way ends above the file without content. -/
theorem lost_first_embeds_contents :
    ∃ map, (lostFirst.apply { flatten := .existing }).2 = some map ∧
      map.sourcesContent = [some "b"] ∧
      (∀ entry ∈ map.sourcesContent, ∃ text, entry = some text) ∧
      lostFirst.graph.trace .existing ⟨0, 0, some 2, none⟩ =
        some ⟨1, some ⟨"/middle.js"⟩, 2, 0, none⟩ ∧
      ∃ node text, lostFirst.graph.node? 1 = some node ∧ node.content = some text := by
  obtain ⟨map, applied⟩ : ∃ map, (lostFirst.apply { flatten := .existing }).2 = some map :=
    ⟨_, rfl⟩
  have traced : lostFirst.graph.trace .existing ⟨0, 0, some 2, none⟩ =
      some ⟨1, some ⟨"/middle.js"⟩, 2, 0, none⟩ := by decide
  obtain ⟨-, contents, embedded, ends⟩ := existing_embeds_contents rfl rfl applied
  refine ⟨map, applied, ?_, embedded, traced, ends _ _ (by decide) traced⟩
  rw [contents]
  decide

end Chain

end MapChain
