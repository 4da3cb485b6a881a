import MapChain.Proofs.Session.Leading
import MapChain.Proofs.Session.Surviving

/-!
What a run of waves asks the file system for, and where it goes on. Main statements: a run that is
over stays as it is however many waves it is given, and it has asked for finitely many paths.
-/

set_option autoImplicit false

namespace MapChain

variable {files : FileSystem}

namespace Graph

def known (graph : Graph) : List Path := graph.nodes.toList.filterMap (·.path)

theorem mem_known {graph : Graph} {id : NodeId} {node : Node} {own : Path}
    (present : graph.node? id = some node) (named : node.path = some own) : own ∈ graph.known := by
  have member : node ∈ graph.nodes.toList :=
    Array.mem_toList_iff.2 (Array.mem_of_getElem? present)
  exact List.mem_filterMap.2 ⟨node, member, named⟩

end Graph

namespace Session

variable {session later : Session} {wave next : List NodeId} {request : Request}

theorem run_waves_add (files : FileSystem) (waves more : Nat) (session : Session)
    (wave : List NodeId) :
    runWaves (advanceConcurrent files) (waves + more) session wave =
      match runWaves (advanceConcurrent files) waves session wave with
      | (later, .unfinished rest) => runWaves (advanceConcurrent files) more later rest
      | ended => ended := by
  induction waves generalizing session wave with
  | zero =>
      cases wave with
      | nil => simp
      | cons id wave => rw [Nat.zero_add]; rfl
  | succ waves induction =>
      cases wave with
      | nil => simp
      | cons id wave =>
          rw [Nat.succ_add]
          simp only [runWaves]
          generalize advanceConcurrent files (session.beginWave (id :: wave)).1
            (session.beginWave (id :: wave)).2 = ended
          obtain ⟨last, fault | next⟩ := ended
          · rfl
          · exact induction last next

theorem kept_of_run (indexed : session.graph.Indexed) {waves : Nat} {outcome : LoadOutcome}
    (run : runWaves (advanceConcurrent files) waves session wave = (later, outcome)) :
    later.graph.Indexed ∧ later.directory = session.directory ∧ later.roots = session.roots := by
  have kept := run_waves_keeps
    (fun between => between.graph.Indexed ∧ between.directory = session.directory ∧
      between.roots = session.roots) ?_ ?_ files waves wave ⟨indexed, rfl, rfl⟩
  · rw [run] at kept
    exact kept
  · rintro between id ⟨still, unmoved, rooted⟩
    exact ⟨indexed_begin_fetch still id, (directory_begin_fetch between id).trans unmoved,
      (roots_begin_fetch between id).trans rooted⟩
  · rintro between fetched ⟨still, unmoved, rooted⟩
    exact ⟨indexed_integrate still fetched, (directory_integrate between fetched).trans unmoved,
      (roots_integrate between fetched).trans rooted⟩

/-- After enough waves a run is over, and more waves change nothing. -/
def Ends (files : FileSystem) (session : Session) (wave : List NodeId) : Prop :=
  ∃ bound result, (∀ rest, result.2 ≠ .unfinished rest) ∧ ∀ waves, bound ≤ waves →
    runWaves (advanceConcurrent files) waves session wave = result

theorem ends_of_finished (waves : Nat) (finished : ∀ rest,
      (runWaves (advanceConcurrent files) waves session wave).2 ≠ .unfinished rest) :
    session.Ends files wave := by
  refine ⟨waves, _, finished, ?_⟩
  intro enough more
  obtain ⟨extra, rfl⟩ := Nat.exists_eq_add_of_le more
  rw [run_waves_add]
  split
  next rest halted => exact absurd (congrArg Prod.snd halted) (finished rest)
  next => rfl

theorem ends_nil (files : FileSystem) (session : Session) : session.Ends files [] := by
  apply ends_of_finished 0
  simp

theorem ends_of_wave {ended : Session × Except Fault (List NodeId)}
    (same : advanceConcurrent files (session.beginWave wave).1 (session.beginWave wave).2 = ended)
    (onward : ∀ next, ended.2 = .ok next → ended.1.Ends files next) : session.Ends files wave := by
  cases wave with
  | nil => exact ends_nil files session
  | cons id wave =>
      obtain ⟨last, fault | next⟩ := ended
      · apply ends_of_finished 1
        simp [runWaves, same]
      · obtain ⟨bound, result, finished, stays⟩ := onward next rfl
        apply ends_of_finished (bound + 1)
        simp only [runWaves, same]
        rw [stays bound (Nat.le_refl bound)]
        exact finished

/-- Some wave of a run hands out this request. -/
def Asks (files : FileSystem) (session : Session) (wave : List NodeId) (request : Request) :
    Prop :=
  ∃ waves later rest,
    runWaves (advanceConcurrent files) waves session wave = (later, .unfinished rest) ∧
      request ∈ (later.beginWave rest).2

theorem asks_here (member : request ∈ (session.beginWave wave).2) :
    session.Asks files wave request := by
  cases wave with
  | nil => cases member
  | cons id wave => exact ⟨0, session, id :: wave, rfl, member⟩

theorem asks_later (advanced : advanceConcurrent files (session.beginWave wave).1
      (session.beginWave wave).2 = (later, .ok next)) (asks : later.Asks files next request) :
    session.Asks files wave request := by
  obtain ⟨waves, last, rest, run, member⟩ := asks
  cases wave with
  | nil =>
      cases advanced
      rw [run_waves_nil] at run
      cases run
  | cons id wave =>
      refine ⟨waves + 1, last, rest, ?_, member⟩
      simp only [runWaves, advanced]
      exact run

/-- Content without a path is asked for, and it leads back to itself. -/
def Recurs (files : FileSystem) (session : Session) (wave : List NodeId) : Prop :=
  ∃ request text, session.Asks files wave request ∧ request.path = none ∧ request.map = none ∧
    request.content = some text ∧ files.Returns session.directory session.roots text

/-- Content is asked for at ever new paths, at which there is nothing to read. -/
def Wanders (files : FileSystem) (session : Session) (wave : List NodeId) : Prop :=
  ∀ paths : List Path, ∃ request path, session.Asks files wave request ∧ request.Plain files ∧
    request.path = some path ∧ request.content ≠ none ∧ ∀ own ∈ paths, ¬Path.Same own path

theorem Ends.exists_paths (ends : session.Ends files wave) (indexed : session.graph.Indexed) :
    ∃ paths : List Path, ∀ request path, session.Asks files wave request →
      request.path = some path → path ∈ paths := by
  obtain ⟨bound, result, finished, stays⟩ := ends
  refine ⟨result.1.graph.known, ?_⟩
  rintro request path ⟨waves, later, rest, run, member⟩ named
  obtain ⟨still, -, -⟩ := kept_of_run indexed run
  have survives : later.graph.Survives rest
      (runWaves (advanceConcurrent files) bound later rest).1.graph :=
    survives_run_waves still bound rest
  have same : runWaves (advanceConcurrent files) bound later rest = result := by
    rw [← stays (waves + bound) (Nat.le_add_left bound waves), run_waves_add, run]
  rw [same] at survives
  obtain ⟨-, old, present, -, asked⟩ :=
    (hands_out_begin_wave later rest).asked request member
  obtain ⟨new, there, outlasts, -⟩ := survives request.id old present
  apply Graph.mem_known there
  rw [outlasts.path, ← named, asked]
  rfl

theorem Ends.not_wanders (ends : session.Ends files wave) (indexed : session.graph.Indexed) :
    ¬session.Wanders files wave := by
  intro wanders
  obtain ⟨paths, all⟩ := ends.exists_paths indexed
  obtain ⟨request, path, asks, -, named, -, apart⟩ := wanders paths
  exact apart path (all request path asks named) rfl

end Session

end MapChain
