import MapChain.Chain.Emit

/-!
What is emitted for a chain. Main statement: where there is a map and a text, the text ends with the
comment that names the map.
-/

set_option autoImplicit false

namespace MapChain.Chain

variable {chain : Chain} {options : Options} {target : Option Path} {emit : Emit}
  {map : SourceMap}

theorem apply_eq (chain : Chain) (options : Options) :
    ∃ count, (chain.apply options).1 = { chain with untraceable := count } := by
  unfold apply
  split
  · exact ⟨chain.untraceable, rfl⟩
  · split
    · exact ⟨chain.untraceable, rfl⟩
    · exact ⟨_, rfl⟩

theorem directory_apply (chain : Chain) (options : Options) :
    (chain.apply options).1.directory = chain.directory := by
  obtain ⟨count, same⟩ := chain.apply_eq options
  rw [same]

theorem version_of_apply (applied : (chain.apply options).2 = some map) :
    map.version = SourceMap.currentVersion := by
  unfold apply at applied
  split at applied
  next => cases applied
  next =>
    split at applied
    · cases applied
      rfl
    · cases applied
      rfl

theorem directory_emit (chain : Chain) (target : Option Path) (options : Options) :
    (chain.emit target options).1.directory = chain.directory := by
  unfold emit
  split
  · rfl
  · exact directory_apply _ _

theorem root_content_apply (chain : Chain) (options : Options) :
    (chain.apply options).1.rootContent? = chain.rootContent? := by
  obtain ⟨count, same⟩ := chain.apply_eq options
  rw [same]
  rfl

/-- What is emitted for a file. Where there is a map, the text of the root loses its reference and
gets one to that map. -/
theorem emit_of_file {file : Path} (options : Options)
    (found : target.or chain.rootPath? = some file) :
    ∃ base content, (chain.emit target options).2 =
        .ok ⟨Path.absolute chain.directory file, content,
          (chain.apply { options with base := some base }).2, options.referenceMode = .inline⟩ ∧
      ∀ map, (chain.apply { options with base := some base }).2 = some map →
        content = chain.rootContent?.map fun text =>
          Reference.strip (Path.absolute chain.directory file) text ++
            Reference.comment (Path.absolute chain.directory file)
              (referenceUrl chain.directory options.referenceMode map
                (Path.absolute chain.directory file) base) := by
  unfold Chain.emit
  generalize target.or chain.rootPath? = given at found
  subst found
  refine ⟨_, _, rfl, ?_⟩
  intro map mapped
  rw [mapped, directory_apply, root_content_apply]
  exact Option.map_map _ _ _

theorem of_emit (emitted : (chain.emit target options).2 = .ok emit) :
    ∃ file base, target.or chain.rootPath? = some file ∧
      emit.target = Path.absolute chain.directory file ∧
      emit.inline = decide (options.referenceMode = .inline) ∧
      emit.map = (chain.apply { options with base := some base }).2 ∧
      ∀ map content, emit.map = some map → emit.content = some content →
        ∃ text, content = text ++ Reference.comment emit.target
          (referenceUrl chain.directory options.referenceMode map emit.target base) := by
  cases found : target.or chain.rootPath? with
  | none =>
      rw [Chain.emit, found] at emitted
      cases emitted
  | some file =>
      obtain ⟨base, content, same, ends⟩ := emit_of_file options found
      rw [same, Except.ok.injEq] at emitted
      rw [← emitted]
      refine ⟨file, base, rfl, rfl, rfl, rfl, ?_⟩
      intro map own mapped written
      rw [ends map mapped] at written
      obtain ⟨text, -, ended⟩ := Option.map_eq_some_iff.1 written
      exact ⟨_, ended.symm⟩

/-- A style sheet that came from another file, with an older reference in its middle. -/
def restyled : Chain where
  graph :=
    { nodes := #[
        { path := some ⟨"/a.css"⟩
          content := some "p {} /*# sourceMappingURL=old.map */ q {}"
          map := some ⟨3, none, [some "a.less"], [], [], "AAAA", none⟩
          mappings := some [[⟨0, some ⟨0, 0, 0, none⟩⟩]]
          sources := [1]
          state := .loaded },
        { path := some ⟨"/a.less"⟩
          content := some "p, q {}"
          map := none
          mappings := none
          sources := []
          state := .loaded }]
      index := [(⟨"/a.less"⟩, 1), (⟨"/a.css"⟩, 0)] }
  root := 0
  untraceable := 0
  directory := ⟨"/"⟩

end MapChain.Chain
