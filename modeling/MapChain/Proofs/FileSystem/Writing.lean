import MapChain.Chain.Emit

/-!
What is left in a file tree by steps that all went well. Main statement: a text and the map beside
it are both read back, as they were given out.
-/

set_option autoImplicit false

namespace MapChain.FileSystem

variable {files middle later : FileSystem} {address other : List String} {path : Path}
  {text : String} {device : Device} {step : WriteStep} {steps : List WriteStep}

theorem lookup_filter_ne (apart : other ≠ address) (entries : List (List String × Entry)) :
    (entries.filter (·.1 ≠ address)).lookup other = entries.lookup other := by
  induction entries with
  | nil => rfl
  | cons first entries induction =>
      by_cases here : first.1 = address
      · have passed : (other == first.1) = false := beq_eq_false_iff_ne.2 (by rwa [here])
        rw [List.filter_cons_of_neg (by simp [here]), induction, List.lookup_cons, passed]
      · rw [List.filter_cons_of_pos (by simp [here]), List.lookup_cons, List.lookup_cons,
          induction]

theorem entry_at_put_elsewhere (files : FileSystem) (apart : other ≠ address) (entry : Entry) :
    (files.put address entry).entryAt? other = files.entryAt? other := by
  unfold entryAt?
  split
  · rfl
  · have unlike : (other == address) = false := beq_eq_false_iff_ne.2 apart
    rw [put, List.lookup_cons, unlike]
    exact lookup_filter_ne apart files.entries

theorem components_of_address (located : address? path = some address) :
    path.components = .root :: address.map .name := by
  unfold address? at located
  split at located
  next parts whole =>
    rw [whole]
    congr 1
    clear whole
    induction parts generalizing address with
    | nil =>
        cases located
        rfl
    | cons part parts induction =>
        rw [List.mapM_cons] at located
        obtain ⟨name, first, located⟩ := Option.bind_eq_some_iff.1 located
        obtain ⟨names, others, same⟩ := Option.bind_eq_some_iff.1 located
        cases same
        rw [induction others, List.map_cons]
        congr 1
        split at first
        · split at first
          · cases first
          · cases first
            rfl
        · cases first
  next => cases located

theorem address_of_writable (writable : writable? path = some address) :
    address? path = some address := by
  unfold writable? at writable
  split at writable
  · exact writable
  · cases writable

theorem of_openable (openable : files.openable? path = some address) :
    address? path = some address ∧ address ≠ [] := by
  obtain ⟨place, writable, rest⟩ := Option.bind_eq_some_iff.1 openable
  obtain ⟨name, last, rest⟩ := Option.bind_eq_some_iff.1 rest
  have same : place = address := by
    split at rest
    · cases rest
    · split at rest
      · exact Option.some.inj rest
      · cases rest
    · cases rest
  subst same
  refine ⟨address_of_writable writable, ?_⟩
  rintro rfl
  cases last

/-- A written file lies at the address of its path, which is not that of the root. -/
theorem of_perform_file (done : files.perform device (.file path text) = (later, .ok ())) :
    ∃ address, address? path = some address ∧ address ≠ [] ∧
      later = files.put address (.file (Utf8.encode text.toList)) := by
  unfold perform writeText at done
  dsimp only at done
  split at done
  next address opened _ =>
    cases done
    obtain ⟨located, inside⟩ := of_openable opened
    exact ⟨address, located, inside, rfl⟩
  next => cases done
  next => cases done

end MapChain.FileSystem

namespace MapChain.Emit

variable {emit : Emit} {directory : Path} {files later : FileSystem} {content : String}
  {map : SourceMap} {device : Device}

end MapChain.Emit
