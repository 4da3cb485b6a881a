import MapChain.Chain.Emit
import MapChain.Proofs.Session.Waves
import MapChain.Session.Call

/-!
Reading and writing files one after the other or with others at work. Main statement: the manner
makes no difference to what a session answers, what it keeps, and what is written.
-/

set_option autoImplicit false

namespace MapChain

variable {files : FileSystem} {session : Session} {calls others : List Call}

namespace Session

/-- In whatever order the fetches of a wave end, a load does the same. -/
theorem load_scheduled_eq (schedule : Schedule) (files : FileSystem) (waves : Nat)
    (session : Session) (root : NodeId) :
    session.loadScheduled schedule files waves root = session.loadBlocking files waves root := by
  have alike : advanceScheduled schedule files = advanceBlocking files := by
    funext session requests
    rw [advance_scheduled_eq, advance_blocking_eq]
  unfold loadScheduled loadBlocking
  rw [alike]

end Session

/-- Two calls that differ in their manner at most. -/
inductive Call.Alike : Call → Call → Prop where
  | same (call : Call) : Alike call call
  | load (manner other : Manner) (root : NodeId) : Alike (.load manner root) (.load other root)

namespace Session

theorem call_load (files : FileSystem) (waves : Nat) (session : Session) (manner : Manner)
    (root : NodeId) :
    session.call files waves (.load manner root) =
      ((session.loadBlocking files waves root).1,
        .outcome (session.loadBlocking files waves root).2) := by
  cases manner with
  | blocking => rfl
  | concurrent schedule => rw [Session.call, load_scheduled_eq]

theorem call_alike {first second : Call} (alike : first.Alike second) (files : FileSystem)
    (waves : Nat) (session : Session) :
    session.call files waves first = session.call files waves second := by
  cases alike with
  | same => rfl
  | load manner other root => rw [call_load, call_load]

theorem call_all_alike (alike : List.Forall₂ Call.Alike calls others) (files : FileSystem)
    (waves : Nat) (session : Session) :
    session.callAll files waves calls = session.callAll files waves others := by
  induction alike generalizing session with
  | nil => rfl
  | @cons first second calls others same rest induction =>
      simp only [callAll, call_alike same]
      rw [induction]

end Session

namespace FileSystem

theorem perform_all_append (files : FileSystem) (device : Device)
    (first second : List WriteStep) :
    files.performAll device (first ++ second) =
      match files.performAll device first with
      | (files, .ok ()) => files.performAll device second
      | (files, .error fault) => (files, .error fault) := by
  induction first generalizing files with
  | nil => rfl
  | cons step first induction =>
      simp only [List.cons_append, performAll]
      generalize files.perform device step = performed
      obtain ⟨between, fault | done⟩ := performed
      · rfl
      · exact induction between

theorem perform_all_singleton (files : FileSystem) (device : Device) (step : WriteStep) :
    files.performAll device [step] = files.perform device step := by
  rw [performAll]
  generalize files.perform device step = performed
  obtain ⟨between, fault | done⟩ := performed <;> rfl

end FileSystem

theorem Emit.write_concurrent_eq (emit : Emit) (files : FileSystem) (device : Device)
    (directory : Path) :
    emit.writeConcurrent files device directory =
      files.performAll device (emit.steps directory) := by
  unfold writeConcurrent steps
  rw [FileSystem.perform_all_append, FileSystem.perform_all_append,
    FileSystem.perform_all_singleton]
  generalize files.perform device (.directories (Path.parentOr directory emit.target)) = opened
  obtain ⟨inside, fault | made⟩ := opened
  · rfl
  · cases emit.content with
    | none =>
        cases emit.mapFile? with
        | none => rfl
        | some file => exact (inside.perform_all_singleton device _).symm
    | some content =>
        dsimp only [Option.map_some, Option.toList_some]
        rw [FileSystem.perform_all_singleton]
        generalize inside.perform device (.file emit.target content) = written
        obtain ⟨after, fault | done⟩ := written
        · rfl
        · cases emit.mapFile? with
          | none => rfl
          | some file => exact (after.perform_all_singleton device _).symm

namespace Chain

theorem write_concurrent_on_eq (device : Device) (chain : Chain) (files : FileSystem)
    (target : Option Path) (options : Options) :
    chain.writeConcurrentOn device files target options =
      chain.writeOn device files target options := by
  unfold writeConcurrentOn writeOn
  simp only [Emit.write_concurrent_eq]

theorem of_file_concurrent_eq (files : FileSystem) (directory : Path) (options : Options)
    (waves : Nat) (file : Path) :
    ofFileConcurrent files directory options waves file =
      ofFile files directory options waves file := by
  have alike (session : Session) (root : NodeId) :
      session.loadConcurrent files waves root = session.loadBlocking files waves root :=
    session.load_scheduled_eq .inTurn files waves root
  unfold ofFileConcurrent ofFile
  simp only [alike]

end Chain

/-- However the files of each load are read, all at a time and in whatever order, or one after the
other: the calls of a session get the same answers and leave the same session, with its graph and
its cache. Loading one file and writing a chain, on whatever device, do not depend on the manner
either. -/
theorem manners_agree :
    (∀ calls others, List.Forall₂ Call.Alike calls others → ∀ files waves (session : Session),
        session.callAll files waves calls = session.callAll files waves others) ∧
      (∀ files directory options waves file,
        Chain.ofFileConcurrent files directory options waves file =
          Chain.ofFile files directory options waves file) ∧
      ∀ device (chain : Chain) files target options,
        chain.writeConcurrentOn device files target options =
          chain.writeOn device files target options :=
  ⟨fun _ _ alike files waves session => session.call_all_alike alike files waves,
    Chain.of_file_concurrent_eq, Chain.write_concurrent_on_eq⟩

namespace Session

def Schedule.backward : Schedule where
  order := fun _ requests => (List.range requests.length).reverse
  complete := fun _ _ => List.reverse_perm _

/-- Two sources that cannot be loaded: the map of one cannot be decoded, that of the other cannot
even be read. -/
def faultyOptions : Options :=
  { content := [(⟨"c.js"⟩, "//# sourceMappingURL=data:application/json,x")]
    sourceMaps :=
      [(⟨"a.js"⟩, ⟨3, none, [some "b.js", some "c.js"], [], [], "", none⟩),
        (⟨"b.js"⟩, ⟨3, none, [], [], [], "!", none⟩)] }

def faulty : Session := start ⟨"/w"⟩ faultyOptions

/-- The first fault in the order of the requests wins, whichever is found first. -/
theorem faulty_manners_agree :
    (faulty.callAll .empty 2 [.addRoot ⟨"a.js"⟩, .load .blocking 1]).2 =
        [.node 1, .outcome (.failed (.malformedMapping (some "/w/b.js")
          (.integer "!" (.foreignByte '!' 0))))] ∧
      faulty.callAll .empty 2 [.addRoot ⟨"a.js"⟩, .load (.concurrent .backward) 1] =
        faulty.callAll .empty 2 [.addRoot ⟨"a.js"⟩, .load .blocking 1] := by
  obtain ⟨agree, -⟩ := manners_agree
  refine ⟨by decide +kernel, ?_⟩
  apply agree
  exact .cons (.same _) (.cons (.load _ _ 1) .nil)

end Session

end MapChain
