import MapChain.Proofs.Chain.Emitting
import MapChain.Proofs.Chain.Manners
import MapChain.Proofs.FileSystem.Writing

/-!
Writes that fail, on a device that may give up at any step and in the middle of a file. The steps of
a write are not taken back: what was done before the failure stays done. Main statement: a write
that fails leaves all files as they were, up to the text and the map file, of which it leaves what
had been written until then.
-/

set_option autoImplicit false

namespace MapChain

namespace FileSystem

variable {files middle later : FileSystem} {path : Path} {text : String} {bytes : List UInt8}
  {device : Device} {step : WriteStep} {steps : List WriteStep} {fault : Fault}

/-- The same files are there, each with the same content. Directories may have come. -/
def SameFiles (files later : FileSystem) : Prop :=
  ∀ address content, later.entryAt? address = some (.file content) ↔
    files.entryAt? address = some (.file content)

/-- The file of a path has come to hold these bytes, and no other file has changed or come. -/
def Sets (files : FileSystem) (path : Path) (bytes : List UInt8) (later : FileSystem) : Prop :=
  ∃ address, address? path = some address ∧ later.entryAt? address = some (.file bytes) ∧
    ∀ other, other ≠ address → ∀ content, later.entryAt? other = some (.file content) ↔
      files.entryAt? other = some (.file content)

theorem same_files_refl (files : FileSystem) : files.SameFiles files := fun _ _ => Iff.rfl

theorem SameFiles.trans (first : files.SameFiles middle) (second : middle.SameFiles later) :
    files.SameFiles later :=
  fun address content => (second address content).trans (first address content)

theorem Sets.of_same_files (sets : middle.Sets path bytes later) (same : files.SameFiles middle) :
    files.Sets path bytes later := by
  obtain ⟨address, located, there, others⟩ := sets
  refine ⟨address, located, there, ?_⟩
  intro other apart content
  exact (others other apart content).trans (same other content)

theorem sets_put {address : List String} (located : address? path = some address)
    (inside : address ≠ []) (files : FileSystem) (bytes : List UInt8) :
    files.Sets path bytes (files.put address (.file bytes)) := by
  refine ⟨address, located, files.entry_at_put inside _, ?_⟩
  intro other apart content
  rw [files.entry_at_put_elsewhere apart]

theorem same_files_make_below (files : FileSystem) (above names : List String) :
    files.SameFiles (files.makeBelow above names).1 := by
  induction names generalizing files above with
  | nil => exact files.same_files_refl
  | cons name names induction =>
      unfold makeBelow
      dsimp only
      split
      next => exact induction files (above ++ [name])
      next => exact files.same_files_refl
      next vacant =>
        split
        next =>
          refine SameFiles.trans ?_ (induction (files.put (above ++ [name]) .directory) _)
          intro address content
          by_cases here : address = above ++ [name]
          · rw [here, vacant, files.entry_at_put (by simp) .directory]
            simp
          · rw [files.entry_at_put_elsewhere here]
        next => exact files.same_files_refl

theorem same_files_directories (files : FileSystem) (device : Device) (path : Path) :
    files.SameFiles (files.perform device (.directories path)).1 := by
  unfold perform makeDirectories makeFirst
  dsimp only
  cases device.progress (.directories path) with
  | nothing => exact files.same_files_refl
  | whole =>
      cases writable? path with
      | none => exact files.same_files_refl
      | some address => exact files.same_files_make_below [] address
  | part count =>
      cases writable? path with
      | none => exact files.same_files_refl
      | some address => exact files.same_files_make_below [] (address.take count)

theorem sets_of_perform_file (done : files.perform device (.file path text) = (later, .ok ())) :
    files.Sets path (Utf8.encode text.toList) later := by
  obtain ⟨address, located, inside, rfl⟩ := of_perform_file done
  exact sets_put located inside files _

/-- A file that cannot be written is left as it is, or holds a beginning of what it was to hold. -/
theorem of_refused_file
    (refused : files.perform device (.file path text) = (later, .error fault)) :
    fault = .unwritable path refusal ∧
      (files.SameFiles later ∨
        ∃ count, files.Sets path ((Utf8.encode text.toList).take count) later) := by
  unfold perform writeText at refused
  dsimp only at refused
  split at refused
  next => cases refused
  next address count opened _ =>
    cases refused
    obtain ⟨located, inside⟩ := of_openable opened
    exact ⟨rfl, Or.inr ⟨count, sets_put located inside files _⟩⟩
  next =>
    cases refused
    exact ⟨rfl, Or.inl files.same_files_refl⟩

theorem of_refused_steps
    (refused : files.performAll device (step :: steps) = (later, .error fault)) :
    files.perform device step = (later, .error fault) ∨
      ∃ middle, files.perform device step = (middle, .ok ()) ∧
        middle.performAll device steps = (later, .error fault) := by
  rw [performAll] at refused
  split at refused
  next middle performed => exact Or.inr ⟨middle, performed, refused⟩
  next failed =>
    cases refused
    exact Or.inl failed

end FileSystem

namespace Emit

variable {emit : Emit} {directory : Path} {files written later : FileSystem} {device : Device}
  {fault : Fault}

def TextWritten (emit : Emit) (files written : FileSystem) : Prop :=
  match emit.content with
  | none => files.SameFiles written
  | some content => files.Sets emit.target (Utf8.encode content.toList) written

def TextCut (emit : Emit) (files later : FileSystem) (fault : Fault) : Prop :=
  ∃ content count, emit.content = some content ∧
    fault = .unwritable emit.target FileSystem.refusal ∧
    files.Sets emit.target ((Utf8.encode content.toList).take count) later

/-- The text has been written, but of the map beside it nothing, or only a beginning. -/
def MapCut (emit : Emit) (files later : FileSystem) (fault : Fault) : Prop :=
  ∃ text written, emit.mapFile? = some (mapPath emit.target, text) ∧
    fault = .unwritable (mapPath emit.target) FileSystem.refusal ∧
    emit.TextWritten files written ∧
    (written.SameFiles later ∨
      ∃ count, written.Sets (mapPath emit.target) ((Utf8.encode text.toList).take count) later)

theorem path_of_map_file {path : Path} {text : String}
    (mapped : emit.mapFile? = some (path, text)) : path = mapPath emit.target := by
  unfold mapFile? at mapped
  split at mapped
  · cases mapped
  · obtain ⟨map, -, same⟩ := Option.map_eq_some_iff.1 mapped
    cases same
    rfl

theorem map_cut_of_refused (done : emit.TextWritten files written)
    (refused : written.performAll device
        (emit.mapFile?.map fun (path, text) => WriteStep.file path text).toList =
      (later, .error fault)) :
    emit.MapCut files later fault := by
  cases mapped : emit.mapFile? with
  | none =>
      rw [mapped] at refused
      cases refused
  | some file =>
      obtain ⟨path, text⟩ := file
      rw [mapped, Option.map_some, Option.toList_some, FileSystem.perform_all_singleton] at refused
      obtain ⟨cause, left⟩ := FileSystem.of_refused_file refused
      have beside : path = mapPath emit.target := path_of_map_file mapped
      rw [beside] at mapped cause left
      exact ⟨text, written, mapped, cause, done, left⟩

theorem of_refused_steps
    (refused : files.performAll device (emit.steps directory) = (later, .error fault)) :
    files.SameFiles later ∨ emit.TextCut files later fault ∨ emit.MapCut files later fault := by
  unfold steps at refused
  rw [List.append_assoc, List.singleton_append] at refused
  have made := files.same_files_directories device (Path.parentOr directory emit.target)
  rcases FileSystem.of_refused_steps refused with early | ⟨middle, performed, rest⟩
  · rw [early] at made
    exact Or.inl made
  · rw [performed] at made
    cases content : emit.content with
    | none =>
        rw [content] at rest
        have done : emit.TextWritten files middle := by
          rw [TextWritten, content]
          exact made
        exact Or.inr (Or.inr (map_cut_of_refused done rest))
    | some text =>
        rw [content, Option.map_some, Option.toList_some, List.singleton_append] at rest
        rcases FileSystem.of_refused_steps rest with failed | ⟨after, put, last⟩
        · obtain ⟨cause, same | ⟨count, cut⟩⟩ := FileSystem.of_refused_file failed
          · exact Or.inl (made.trans same)
          · exact Or.inr (Or.inl ⟨text, count, content, cause, cut.of_same_files made⟩)
        · have done : emit.TextWritten files after := by
            rw [TextWritten, content]
            exact (FileSystem.sets_of_perform_file put).of_same_files made
          exact Or.inr (Or.inr (map_cut_of_refused done last))

end Emit

namespace Chain

variable {chain : Chain} {options : Options} {target : Option Path} {files later : FileSystem}
  {device : Device} {fault : Fault}

/-- A write fails where nothing can be emitted, or at one of its steps. -/
theorem of_refused_write
    (refused : (chain.writeOn device files target options).2 = (later, .error fault)) :
    (later = files ∧ (chain.emit target options).2 = .error fault) ∨
      ∃ emit, (chain.emit target options).2 = .ok emit ∧
        files.performAll device (emit.steps chain.directory) = (later, .error fault) := by
  have directory := directory_emit chain target options
  unfold writeOn at refused
  split at refused
  next after cause emitted =>
    cases refused
    rw [emitted]
    exact Or.inl ⟨rfl, rfl⟩
  next after emit emitted =>
    rw [emitted] at directory ⊢
    dsimp only at directory
    rw [directory] at refused
    split at refused
    next => cases refused
    next written cause performed =>
      cases refused
      exact Or.inr ⟨emit, rfl, performed⟩

/-- A write that fails, in whatever manner and on whatever device, leaves every file as it was and
adds none, unless it fails in the middle of the text, of which the file then holds a beginning, or
at the map beside the text, which has been written in full by then. -/
theorem refused_write_spares_files
    (refused : (chain.writeOn device files target options).2 = (later, .error fault) ∨
      (chain.writeConcurrentOn device files target options).2 = (later, .error fault)) :
    files.SameFiles later ∨ ∃ emit, (chain.emit target options).2 = .ok emit ∧
      (emit.TextCut files later fault ∨ emit.MapCut files later fault) := by
  rw [write_concurrent_on_eq, or_self_iff] at refused
  rcases of_refused_write refused with ⟨rfl, -⟩ | ⟨emit, emitted, performed⟩
  · exact Or.inl later.same_files_refl
  · rcases Emit.of_refused_steps performed with same | cut
    · exact Or.inl same
    · exact Or.inr ⟨emit, emitted, cut⟩

/-- The file of a chain, with a directory in the place of its map. -/
def occupied : FileSystem :=
  ⟨[(["a.css"], .file (Utf8.encode "p {} q {}".toList)), (["a.css.map"], .directory)]⟩

/-- Writing a chain over its own file fails at the map, when the file has its new text. -/
theorem refused_write_overwrites :
    (restyled.write occupied none {}).2.2 =
        .error (.unwritable ⟨"/a.css.map"⟩ FileSystem.refusal) ∧
      occupied.entryAt? ["a.css"] = some (.file (Utf8.encode "p {} q {}".toList)) ∧
      (restyled.write occupied none {}).2.1.entryAt? ["a.css"] =
        some (.file (Utf8.encode
          ("p {} /*# sourceMappingURL=old.map */ q {}".toList ++
            "\n/*# sourceMappingURL=a.css.map */\n".toList))) := by
  refine ⟨rfl, by decide +kernel, by decide +kernel⟩

def cramped : Device where
  progress := fun
    | .directories _ => .whole
    | .file _ _ => .part 5

theorem cramped_write_spares_files :
    (restyled.writeOn cramped occupied none {}).2.2 =
        .error (.unwritable ⟨"/a.css"⟩ FileSystem.refusal) ∧
      (restyled.writeOn cramped occupied none {}).2.1.entryAt? ["a.css"] =
        some (.file (Utf8.encode "p {} ".toList)) ∧
      ∀ other, other ≠ ["a.css"] → ∀ bytes,
        (restyled.writeOn cramped occupied none {}).2.1.entryAt? other = some (.file bytes) ↔
          occupied.entryAt? other = some (.file bytes) := by
  have refused : (restyled.writeOn cramped occupied none {}).2 =
      ((restyled.writeOn cramped occupied none {}).2.1,
        .error (.unwritable ⟨"/a.css"⟩ FileSystem.refusal)) := rfl
  refine ⟨rfl, by decide +kernel, ?_⟩
  have target {emit : Emit} (emitted : (restyled.emit none {}).2 = .ok emit) :
      emit.target = ⟨"/a.css"⟩ := by
    rw [← Except.ok.inj emitted]
    rfl
  rcases refused_write_spares_files (Or.inl refused) with same | ⟨emit, emitted, text | map⟩
  · exact fun other _ bytes => same other bytes
  · obtain ⟨content, count, -, -, address, located, -, others⟩ := text
    rw [target emitted] at located
    have place : address = ["a.css"] := (Option.some.inj located).symm
    rw [place] at others
    exact others
  · -- the fault would name the map
    obtain ⟨text, written, -, cause, -⟩ := map
    rw [target emitted] at cause
    exact absurd cause (by decide)

end Chain

end MapChain
