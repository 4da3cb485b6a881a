import MapChain.Proofs.Chain.Flattening

/-!
The numbers that a flattened map gives to its sources and its names. Main statement: they are the
places of the sources and names in their lists, none is left out, and each number that is used for
the first time is the next one.
-/

set_option autoImplicit false

namespace MapChain

def Mappings.sourceIndices (lines : Mappings) : List Nat :=
  lines.flatten.filterMap fun segment => segment.origin.map (·.source.toNat)

def Mappings.nameIndices (lines : Mappings) : List Nat :=
  lines.flatten.filterMap fun segment => segment.origin.bind fun origin =>
    origin.name.map (·.toNat)

section Numbers

variable {Value : Type} [BEq Value] [LawfulBEq Value] {values : List Value} {value : Value}

theorem erase_dups_map {Image : Type} [BEq Image] [LawfulBEq Image] {change : Value → Image}
    (values : List Value)
    (apart : ∀ left ∈ values, ∀ right ∈ values, change left = change right → left = right) :
    (values.map change).eraseDups = values.eraseDups.map change := by
  match values with
  | [] => rfl
  | value :: values =>
      have same : (values.map change).filter (fun other => !other == change value) =
          (values.filter fun other => !other == value).map change := by
        rw [List.filter_map]
        congr 1
        apply List.filter_congr
        intro other member
        have inside : other ∈ value :: values := List.mem_cons_of_mem value member
        have alike : change other = change value ↔ other = value :=
          ⟨apart other inside value List.mem_cons_self, congrArg change⟩
        simp only [Function.comp_apply, Bool.not_eq_eq_eq_not]
        rw [Bool.eq_iff_iff]
        simp [alike]
      have fewer : ∀ other ∈ values.filter fun other => !other == value, other ∈ value :: values :=
        fun other member => List.mem_cons_of_mem value (List.mem_filter.1 member).1
      rw [List.map_cons, List.eraseDups_cons, List.eraseDups_cons, same, List.map_cons,
        erase_dups_map _ fun left member right inside =>
          apart left (fewer left member) right (fewer right inside)]
termination_by values.length
decreasing_by
  exact Nat.lt_succ_of_le (List.length_filter_le _ _)

/-- The first uses of the numbers of values are in the order of the numbers. -/
theorem erase_dups_places (values : List Value) :
    (values.map values.eraseDups.idxOf).eraseDups = List.range values.eraseDups.length := by
  rw [erase_dups_map]
  · apply List.ext_getElem
    · rw [List.length_map, List.length_range]
    · intro place inside _
      rw [List.length_map] at inside
      rw [List.getElem_map, List.getElem_range,
        (TracedLines.nodup_erase_dups values).idxOf_getElem place inside]
  · intro left member right _ same
    have inside := List.mem_eraseDups.2 member
    exact List.idxOf_inj inside |>.1 same

theorem number_lt (member : value ∈ values) :
    (TracedLines.number values value).toNat < values.length := by
  have inside := List.idxOf_lt_length_of_mem member
  rw [TracedLines.number, UInt32.toNat_ofNat']
  exact Nat.lt_of_le_of_lt (Nat.mod_le _ _) inside

theorem number_eq (fits : values.length ≤ UInt32.size) (member : value ∈ values) :
    (TracedLines.number values value).toNat = values.idxOf value := by
  have inside := List.idxOf_lt_length_of_mem member
  exact UInt32.toNat_ofNat_of_lt' (Nat.lt_of_lt_of_le inside fits)

theorem erase_dups_numbers (fits : values.eraseDups.length ≤ UInt32.size) :
    (values.map fun value => (TracedLines.number values.eraseDups value).toNat).eraseDups =
      List.range values.eraseDups.length := by
  rw [← erase_dups_places]
  congr 1
  apply List.map_congr_left
  intro value member
  exact number_eq fits (List.mem_eraseDups.2 member)

theorem used_in_order {indices : List Nat} {count : Nat}
    (dense : indices.eraseDups = List.range count) :
    (∀ index < count, index ∈ indices) ∧ indices.eraseDups = List.range count := by
  refine ⟨?_, dense⟩
  intro index inside
  rw [← List.mem_eraseDups, dense]
  exact List.mem_range.2 inside

end Numbers

namespace TracedLines

variable {traced : TracedLines}

theorem source_indices_mappings (traced : TracedLines) :
    traced.mappings.sourceIndices =
      (traced.traces.map (·.node)).map fun id => (number traced.sources id).toNat := by
  simp only [Mappings.sourceIndices, mappings, traces, ← List.map_flatten, List.filterMap_map,
    List.map_map]
  exact congrFun (List.filterMap_eq_map (f := fun reached : TracedSegment =>
    (number traced.sources reached.trace.node).toNat)) traced.lines.flatten

theorem name_indices_mappings (traced : TracedLines) :
    traced.mappings.nameIndices =
      (traced.traces.filterMap (·.name)).map fun name => (number traced.names name).toNat := by
  simp only [Mappings.nameIndices, mappings, traces, ← List.map_flatten, List.filterMap_map,
    List.map_filterMap]
  congr 1
  funext reached
  exact Option.map_map _ _ _

end TracedLines

namespace Chain

variable {chain : Chain} {options : Options} {map : SourceMap}

theorem decode_traced (traced : TracedLines) :
    ∃ flats, Mappings.decode traced.mappings.encode = .ok flats ∧
      flats.sourceIndices = traced.mappings.sourceIndices ∧
      flats.nameIndices = traced.mappings.nameIndices := by
  by_cases empty : traced.mappings = []
  · rw [empty]
    exact ⟨[[]], Mappings.decode_encode_nil, rfl, rfl⟩
  · exact ⟨_, Mappings.decode_encode_of_ne_nil empty, rfl, rfl⟩

/-- The indices of a flattened map are in bounds. As far as thirty-two bits can count its sources
and its names, every one of these is used, and first uses come in the order of the numbers. -/
theorem apply_numbers_densely (active : options.flatten ≠ .off)
    (applied : (chain.apply options).2 = some map) :
    ∃ flats, Mappings.decode map.mappings = .ok flats ∧
      map.sourcesContent.length = map.sources.length ∧
      map.sources = (chain.flatSources options.flatten).map (chain.renderSource options) ∧
      (chain.flatSources options.flatten).Nodup ∧ map.names.Nodup ∧
      (∀ index ∈ flats.sourceIndices, index < map.sources.length) ∧
      (∀ index ∈ flats.nameIndices, index < map.names.length) ∧
      (map.sources.length ≤ UInt32.size →
        (∀ index < map.sources.length, index ∈ flats.sourceIndices) ∧
          flats.sourceIndices.eraseDups = List.range map.sources.length) ∧
      (map.names.length ≤ UInt32.size →
        (∀ index < map.names.length, index ∈ flats.nameIndices) ∧
          flats.nameIndices.eraseDups = List.range map.names.length) := by
  obtain ⟨node, rootMap, lines, -, -, sources, same⟩ := of_apply active applied
  generalize chain.graph.traceLines options.flatten node lines = traced at sources same
  obtain ⟨flats, decoded, sourceIndices, nameIndices⟩ := decode_traced traced
  rw [TracedLines.source_indices_mappings] at sourceIndices
  rw [TracedLines.name_indices_mappings] at nameIndices
  have sourceCount : map.sources.length = traced.sources.length := by
    rw [same]
    exact List.length_map _
  have contentCount : map.sourcesContent.length = traced.sources.length := by
    rw [same]
    exact List.length_map _
  have names : map.names = traced.names := by
    rw [same]
    rfl
  refine ⟨flats, ?_⟩
  rw [sourceCount, contentCount, sources, names, sourceIndices, nameIndices]
  refine ⟨?_, rfl, ?_, traced.nodup_sources, traced.nodup_names, ?_, ?_, ?_, ?_⟩
  · rw [same]
    exact decoded
  · rw [same]
    rfl
  · intro index member
    obtain ⟨id, inside, rfl⟩ := List.mem_map.1 member
    exact number_lt (List.mem_eraseDups.2 inside)
  · intro index member
    obtain ⟨name, inside, rfl⟩ := List.mem_map.1 member
    exact number_lt (List.mem_eraseDups.2 inside)
  · intro fits
    exact used_in_order (erase_dups_numbers fits)
  · intro fits
    exact used_in_order (erase_dups_numbers fits)

/-- A file that came from two others, the second of which turns up first. One name stands twice in
its map, and its last segment leads nowhere. -/
def crossed : Chain where
  graph :=
    { nodes := #[
        { path := some ⟨"/last.js"⟩
          content := some "c"
          map := some ⟨3, none, [some "a.js", some "b.js"], [], ["x", "y", "x"],
            "ACAAE,CDAAD;ACIAD,KMJA", none⟩
          mappings := some
            [[⟨0, some ⟨1, 0, 0, some 2⟩⟩, ⟨1, some ⟨0, 0, 0, some 1⟩⟩],
              [⟨0, some ⟨1, 4, 0, some 0⟩⟩, ⟨5, some ⟨7, 0, 0, none⟩⟩]]
          sources := [1, 2]
          state := .loaded },
        { path := some ⟨"/a.js"⟩
          content := some "a"
          map := none
          mappings := none
          sources := []
          state := .loaded },
        { path := some ⟨"/b.js"⟩
          content := some "b"
          map := none
          mappings := none
          sources := []
          state := .loaded }]
      index := [(⟨"/b.js"⟩, 2), (⟨"/a.js"⟩, 1), (⟨"/last.js"⟩, 0)] }
  root := 0
  untraceable := 0
  directory := ⟨"/"⟩

theorem crossed_numbers_densely :
    ({} : Options).flatten ≠ .off ∧
      ∃ map flats, (crossed.apply {}).2 = some map ∧ Mappings.decode map.mappings = .ok flats ∧
        map.sources = [some "b.js", some "a.js"] ∧ map.names = ["x", "y"] ∧
        flats.sourceIndices.eraseDups = [0, 1] ∧ flats.nameIndices.eraseDups = [0, 1] := by
  obtain ⟨map, applied, sources, names⟩ : ∃ map, (crossed.apply {}).2 = some map ∧
      map.sources = [some "b.js", some "a.js"] ∧ map.names = ["x", "y"] :=
    ⟨_, rfl, by decide +kernel, by decide +kernel⟩
  have active : ({} : Options).flatten ≠ .off := by decide
  obtain ⟨flats, decoded, -, -, -, -, -, -, sourceOrder, nameOrder⟩ :=
    apply_numbers_densely active applied
  rw [sources] at sourceOrder
  rw [names] at nameOrder
  exact ⟨active, map, flats, applied, decoded, sources, names, (sourceOrder (by decide)).2,
    (nameOrder (by decide)).2⟩

end Chain

end MapChain
