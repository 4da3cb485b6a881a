import MapChain.Proofs.Session.Answers
import MapChain.Proofs.Session.Integrating
import MapChain.Proofs.Graph.Reach

/-!
Whole waves, and whole loads. Main statements: fetching one by one does what fetching at a time
does, and a load that completes leaves no node on its way.
-/

set_option autoImplicit false

namespace MapChain.Session

variable {files : FileSystem} {directory : Path} {roots : List Path} {session : Session}
  {requests : List Request} {wave queue : List NodeId} {fetched : Fetched}

@[simp]
theorem directory_integrate (session : Session) (fetched : Fetched) :
    (session.integrate fetched).1.directory = session.directory := by
  cases present : session.graph.node? fetched.id with
  | none => simp [integrate, present]
  | some node =>
      rcases integrate_cases session present with
        ⟨-, same⟩ | ⟨map, fault, -, -, same⟩ | ⟨map, lines, -, -, same⟩ <;> rw [same]

@[simp]
theorem roots_integrate (session : Session) (fetched : Fetched) :
    (session.integrate fetched).1.roots = session.roots := by
  cases present : session.graph.node? fetched.id with
  | none => simp [integrate, present]
  | some node =>
      rcases integrate_cases session present with
        ⟨-, same⟩ | ⟨map, fault, -, -, same⟩ | ⟨map, lines, -, -, same⟩ <;> rw [same]

/-- A fetch looks at no graph, so it does not matter whether a node is folded in before. -/
theorem advance_blocking_eq (files : FileSystem) (session : Session) (requests : List Request) :
    advanceBlocking files session requests =
      session.integrateAll (requests.map (·.fetch files session.directory session.roots)) := by
  induction requests generalizing session with
  | nil => rfl
  | cons request requests induction =>
      rw [List.map_cons, advanceBlocking]
      cases answered : request.fetch files session.directory session.roots with
      | error fault => rfl
      | ok fetched =>
          simp only [integrateAll]
          have kept := directory_integrate session fetched
          have held := roots_integrate session fetched
          generalize session.integrate fetched = folded at kept held ⊢
          obtain ⟨next, fault | pending⟩ := folded
          · rfl
          · have unmoved : next.directory = session.directory := kept
            have rooted : next.roots = session.roots := held
            simp only [induction next, unmoved, rooted]

theorem advance_concurrent_eq (files : FileSystem) (session : Session) (requests : List Request) :
    advanceConcurrent files session requests =
      session.integrateAll (requests.map (·.fetch files session.directory session.roots)) :=
  advance_scheduled_eq .inTurn files session requests

theorem of_collect {pending next : List NodeId} {later : Session × Except Fault (List NodeId)}
    (completed : (collect pending later).2 = .ok next) :
    ∃ last, later.2 = .ok last ∧ next = pending ++ last := by
  obtain ⟨session, fault | last⟩ := later
  · cases completed
  · cases completed
    exact ⟨last, rfl, rfl⟩

theorem indexed_begin_fetch (indexed : session.graph.Indexed) (id : NodeId) :
    (session.beginFetch id).1.graph.Indexed := by
  rcases begin_fetch_cases session id with ⟨idle, -⟩ | ⟨node, -, -, handed⟩
  · rw [idle]
    exact indexed
  · rw [handed]
    exact Graph.indexed_modify indexed fun _ => rfl

theorem indexed_integrate (indexed : session.graph.Indexed) (fetched : Fetched) :
    (session.integrate fetched).1.graph.Indexed := by
  cases present : session.graph.node? fetched.id with
  | none =>
      simp only [integrate, present]
      exact indexed
  | some node =>
      rcases integrate_cases session present with
        ⟨-, same⟩ | ⟨map, fault, -, -, same⟩ | ⟨map, lines, -, -, same⟩
      · rw [same]
        exact indexed.land fetched
      · rw [same]
        exact indexed.land fetched
      · rw [same]
        apply Graph.indexed_modify
        · exact indexed_attach_children (indexed.land fetched) fetched.children
        · exact fun _ => rfl

section Keeping

variable (kept : Session → Prop)

theorem begin_wave_keeps (begins : ∀ session id, kept session → kept (session.beginFetch id).1)
    (wave : List NodeId) (holds : kept session) : kept (session.beginWave wave).1 := by
  induction wave generalizing session with
  | nil => exact holds
  | cons id wave induction => exact induction (begins session id holds)

theorem integrate_all_keeps
    (folds : ∀ session fetched, kept session → kept (session.integrate fetched).1)
    (results : List (Except Fault Fetched)) (holds : kept session) :
    kept (session.integrateAll results).1 := by
  induction results generalizing session with
  | nil => exact holds
  | cons result results induction =>
      cases result with
      | error fault => exact holds
      | ok fetched =>
          have folded := folds session fetched holds
          simp only [integrateAll]
          generalize session.integrate fetched = integrated at folded ⊢
          obtain ⟨next, fault | pending⟩ := integrated
          · exact folded
          · exact induction folded

theorem run_waves_keeps (begins : ∀ session id, kept session → kept (session.beginFetch id).1)
    (folds : ∀ session fetched, kept session → kept (session.integrate fetched).1)
    (files : FileSystem) (waves : Nat) (wave : List NodeId) (holds : kept session) :
    kept (runWaves (advanceConcurrent files) waves session wave).1 := by
  induction waves generalizing session wave with
  | zero => cases wave <;> exact holds
  | succ waves induction =>
      cases wave with
      | nil => exact holds
      | cons id wave =>
          have begun := begin_wave_keeps kept begins (id :: wave) holds
          simp only [runWaves, advance_concurrent_eq]
          generalize session.beginWave (id :: wave) = started at begun ⊢
          obtain ⟨between, requests⟩ := started
          have folded := integrate_all_keeps kept folds
            (requests.map (·.fetch files between.directory between.roots)) begun
          dsimp only
          generalize between.integrateAll
            (requests.map (·.fetch files between.directory between.roots)) = ended at folded ⊢
          obtain ⟨last, fault | next⟩ := ended
          · exact folded
          · exact induction next folded

end Keeping

theorem directory_begin_fetch (session : Session) (id : NodeId) :
    (session.beginFetch id).1.directory = session.directory := by
  rcases begin_fetch_cases session id with ⟨idle, -⟩ | ⟨node, -, -, handed⟩
  · rw [idle]
  · rw [handed]

theorem directory_begin_wave (session : Session) (wave : List NodeId) :
    (session.beginWave wave).1.directory = session.directory :=
  begin_wave_keeps (fun later => later.directory = session.directory)
    (fun later id same => (directory_begin_fetch later id).trans same) wave rfl

theorem directory_integrate_all (session : Session) (results : List (Except Fault Fetched)) :
    (session.integrateAll results).1.directory = session.directory :=
  integrate_all_keeps (fun later => later.directory = session.directory)
    (fun later fetched same => (directory_integrate later fetched).trans same) results rfl

theorem roots_begin_fetch (session : Session) (id : NodeId) :
    (session.beginFetch id).1.roots = session.roots := by
  rcases begin_fetch_cases session id with ⟨idle, -⟩ | ⟨node, -, -, handed⟩
  · rw [idle]
  · rw [handed]

theorem roots_begin_wave (session : Session) (wave : List NodeId) :
    (session.beginWave wave).1.roots = session.roots :=
  begin_wave_keeps (fun later => later.roots = session.roots)
    (fun later id same => (roots_begin_fetch later id).trans same) wave rfl

theorem roots_integrate_all (session : Session) (results : List (Except Fault Fetched)) :
    (session.integrateAll results).1.roots = session.roots :=
  integrate_all_keeps (fun later => later.roots = session.roots)
    (fun later fetched same => (roots_integrate later fetched).trans same) results rfl

theorem indexed_begin_wave (indexed : session.graph.Indexed) (wave : List NodeId) :
    (session.beginWave wave).1.graph.Indexed :=
  begin_wave_keeps (fun session => session.graph.Indexed)
    (fun _ id indexed => indexed_begin_fetch indexed id) wave indexed

theorem indexed_integrate_all (indexed : session.graph.Indexed)
    (results : List (Except Fault Fetched)) :
    (session.integrateAll results).1.graph.Indexed :=
  integrate_all_keeps (fun session => session.graph.Indexed)
    (fun _ fetched indexed => indexed_integrate indexed fetched) results indexed

theorem tidy_integrate_all {waiting next : List NodeId} (indexed : session.graph.Indexed)
    (tidy : session.graph.Tidy queue (requests.map (·.id) ++ waiting))
    (completed : (session.integrateAll (requests.map (·.fetch files directory roots))).2 =
      .ok next) :
    (session.integrateAll (requests.map (·.fetch files directory roots))).1.graph.Tidy
      (queue ++ next) waiting := by
  induction requests generalizing session queue next with
  | nil =>
      cases completed
      exact tidy.mono (List.subset_append_left queue []) (List.Subset.refl waiting)
  | cons request requests induction =>
      simp only [List.map_cons] at completed ⊢
      cases answered : request.fetch files directory roots with
      | error fault =>
          rw [answered] at completed
          cases completed
      | ok fetched =>
          obtain ⟨target, -, -⟩ := Request.of_fetch answered
          rw [List.map_cons, List.cons_append, ← target] at tidy
          have tidied (pending : List NodeId)
              (ended : (session.integrate fetched).2 = .ok pending) :=
            tidy_integrate indexed tidy ended
          have still := indexed_integrate indexed fetched
          rw [answered] at completed
          simp only [integrateAll] at completed ⊢
          generalize session.integrate fetched = integrated at completed tidied still ⊢
          obtain ⟨between, fault | pending⟩ := integrated
          · cases completed
          · obtain ⟨last, ended, rfl⟩ := of_collect completed
            have rest := induction still (tidied pending rfl) ended
            rw [List.append_assoc] at rest
            exact rest

/-- What the answers to all requests leave behind, whether they fail or not. -/
theorem Sound.integrate_all (sound : session.Sound files directory roots requests) :
    let results := requests.map (·.fetch files directory roots)
    (session.integrateAll results).1.Sound files directory roots [] ∧
      Graph.Advances requests [] session.graph (session.integrateAll results).1.graph := by
  induction requests generalizing session with
  | nil => exact ⟨sound, Graph.advances_land session.graph (List.Subset.refl [])⟩
  | cons request requests induction =>
      simp only [List.map_cons]
      have fewer : ([] : List Request) ⊆ request :: requests := List.nil_subset _
      cases answered : request.fetch files directory roots with
      | error fault => exact ⟨sound.land, Graph.advances_land session.graph fewer⟩
      | ok fetched =>
          have folded := sound.integrate answered
          have advances := advances_integrate sound answered
          simp only [integrateAll]
          generalize session.integrate fetched = integrated at folded advances ⊢
          obtain ⟨next, fault | pending⟩ := integrated
          · have given : ([] : List Request) ⊆ requests := List.nil_subset _
            exact ⟨folded.land, advances.trans (Graph.advances_land next.graph given)⟩
          · obtain ⟨still, onward⟩ := induction folded
            exact ⟨still, advances.trans onward⟩

theorem Sound.run_waves (sound : session.Sound files directory roots []) (waves : Nat)
    (wave : List NodeId) :
    let run := runWaves (advanceConcurrent files) waves session wave
    run.1.Sound files directory roots [] ∧ Graph.Advances [] [] session.graph run.1.graph := by
  have still := Graph.advances_land session.graph (List.Subset.refl ([] : List Request))
  induction waves generalizing session wave with
  | zero => cases wave <;> exact ⟨sound, still⟩
  | succ waves induction =>
      cases wave with
      | nil => exact ⟨sound, still⟩
      | cons id wave =>
          have begun := sound.begin_wave (id :: wave)
          have started := advances_begin_wave sound (id :: wave)
          rw [List.nil_append] at begun started
          obtain ⟨folded, advances⟩ := begun.integrate_all
          simp only [runWaves, advance_concurrent_eq, begun.unmoved, begun.rooted]
          generalize (session.beginWave (id :: wave)).1.integrateAll
            ((session.beginWave (id :: wave)).2.map (·.fetch files directory roots)) = ended
            at folded advances ⊢
          obtain ⟨last, fault | next⟩ := ended
          · exact ⟨folded, started.trans advances⟩
          · have settled := Graph.advances_land last.graph (List.Subset.refl ([] : List Request))
            obtain ⟨sounded, onward⟩ := induction folded next settled
            exact ⟨sounded, (started.trans advances).trans onward⟩

theorem tidy_run_waves {waiting : List NodeId} (indexed : session.graph.Indexed) (waves : Nat)
    (tidy : session.graph.Tidy (wave ++ queue) waiting)
    (completed : (runWaves (advanceConcurrent files) waves session wave).2 = .complete) :
    (runWaves (advanceConcurrent files) waves session wave).1.graph.Tidy queue waiting := by
  induction waves generalizing session wave with
  | zero =>
      cases wave with
      | nil => exact tidy
      | cons id wave => cases completed
  | succ waves induction =>
      cases wave with
      | nil => exact tidy
      | cons id wave =>
          have begun := indexed_begin_wave indexed (id :: wave)
          have handed := tidy_begin_wave tidy
          simp only [runWaves, advance_concurrent_eq] at completed ⊢
          generalize session.beginWave (id :: wave) = started at begun handed completed ⊢
          obtain ⟨between, requests⟩ := started
          have folded := indexed_integrate_all begun
            (requests.map (·.fetch files between.directory between.roots))
          have tidied (next : List NodeId)
              (ended : (between.integrateAll
                (requests.map (·.fetch files between.directory between.roots))).2 = .ok next) :=
            tidy_integrate_all begun
              (handed.mono (List.Subset.refl queue) List.perm_append_comm.subset) ended
          dsimp only at completed ⊢
          generalize between.integrateAll
            (requests.map (·.fetch files between.directory between.roots)) = ended
            at folded tidied completed ⊢
          obtain ⟨last, fault | next⟩ := ended
          · cases completed
          · have onward := (tidied next rfl).mono List.perm_append_comm.subset
              (List.Subset.refl waiting)
            exact induction folded onward completed

theorem enqueue_cases (session : Session) (root : NodeId) :
    (session.enqueue root = (session, []) ∧
        ∀ node, session.graph.node? root = some node → node.state ≠ .unvisited) ∨
      ∃ node, session.graph.node? root = some node ∧ node.state = .unvisited ∧
        session.enqueue root =
          ({ session with
              graph := session.graph.modify root fun node => { node with state := .queued } },
            [root]) := by
  cases present : session.graph.node? root with
  | none =>
      refine Or.inl ⟨by simp [enqueue, present], ?_⟩
      intro node there
      cases there
  | some node =>
      by_cases unvisited : node.state = .unvisited
      · exact Or.inr ⟨node, rfl, unvisited, by simp [enqueue, present, unvisited]⟩
      · refine Or.inl ⟨by simp [enqueue, present, unvisited], ?_⟩
        intro other there
        cases there
        exact unvisited

theorem directory_enqueue (session : Session) (root : NodeId) :
    (session.enqueue root).1.directory = session.directory := by
  rcases enqueue_cases session root with ⟨idle, -⟩ | ⟨node, -, -, queued⟩
  · rw [idle]
  · rw [queued]

theorem Sound.enqueue (sound : session.Sound files directory roots []) (root : NodeId) :
    (session.enqueue root).1.Sound files directory roots [] := by
  rcases enqueue_cases session root with ⟨idle, -⟩ | ⟨node, present, unvisited, queued⟩
  · rw [idle]
    exact sound
  · rw [queued]
    apply sound.grow (Graph.grows_queue present unvisited)
    exact Graph.indexed_modify sound.indexed fun _ => rfl

theorem tidy_enqueue {waiting : List NodeId} (tidy : session.graph.Tidy queue waiting)
    (root : NodeId) :
    (session.enqueue root).1.graph.Tidy ((session.enqueue root).2 ++ queue) waiting := by
  rcases enqueue_cases session root with ⟨idle, -⟩ | ⟨node, present, unvisited, queued⟩
  · rw [idle]
    exact tidy
  · rw [queued]
    exact Graph.tidy_queue tidy

theorem visited_enqueue {root : NodeId} {node : Node}
    (present : (session.enqueue root).1.graph.node? root = some node) :
    node.state ≠ .unvisited := by
  rcases enqueue_cases session root with ⟨idle, visited⟩ | ⟨old, there, unvisited, queued⟩
  · rw [idle] at present
    exact visited node present
  · rw [queued, Graph.node_modify_self, there] at present
    cases present
    simp

inductive Pace where
  | blocking
  | concurrent
  deriving DecidableEq, Repr

def load (pace : Pace) (files : FileSystem) (waves : Nat) (session : Session) (root : NodeId) :
    Session × LoadOutcome :=
  match pace with
  | .blocking => session.loadBlocking files waves root
  | .concurrent => session.loadConcurrent files waves root

/-- The pace makes no difference to what a load does. -/
theorem load_eq (pace : Pace) (files : FileSystem) (waves : Nat) (session : Session)
    (root : NodeId) :
    session.load pace files waves root =
      runWaves (advanceConcurrent files) waves (session.enqueue root).1
        (session.enqueue root).2 := by
  cases pace with
  | concurrent => rfl
  | blocking =>
      have alike : advanceBlocking files = advanceConcurrent files := by
        funext session requests
        rw [advance_blocking_eq, advance_concurrent_eq]
      unfold load loadBlocking
      rw [alike]

theorem load_blocking_eq (files : FileSystem) (waves : Nat) (session : Session) (root : NodeId) :
    session.loadBlocking files waves root =
      runWaves (advanceConcurrent files) waves (session.enqueue root).1
        (session.enqueue root).2 :=
  load_eq .blocking files waves session root

theorem Sound.load (sound : session.Sound files directory roots []) (pace : Pace) (waves : Nat)
    (root : NodeId) :
    (session.load pace files waves root).1.Sound files directory roots [] := by
  rw [load_eq]
  exact ((sound.enqueue root).run_waves waves (session.enqueue root).2).1

theorem indexed_enqueue (indexed : session.graph.Indexed) (root : NodeId) :
    (session.enqueue root).1.graph.Indexed := by
  rcases enqueue_cases session root with ⟨idle, -⟩ | ⟨node, -, -, queued⟩
  · rw [idle]
    exact indexed
  · rw [queued]
    exact Graph.indexed_modify indexed fun _ => rfl

theorem tidy_of_load {waiting : List NodeId} (indexed : session.graph.Indexed)
    (tidy : session.graph.Tidy queue waiting) {pace : Pace} {waves : Nat} {root : NodeId}
    (completed : (session.load pace files waves root).2 = .complete) :
    (session.load pace files waves root).1.graph.Tidy queue waiting := by
  rw [load_eq] at completed ⊢
  exact tidy_run_waves (indexed_enqueue indexed root) waves (tidy_enqueue tidy root) completed

theorem tidy_load (sound : session.Sound files directory roots [])
    (tidy : session.graph.Tidy [] []) {pace : Pace} {waves : Nat} {root : NodeId}
    (completed : (session.load pace files waves root).2 = .complete) :
    (session.load pace files waves root).1.graph.Tidy [] [] :=
  tidy_of_load sound.indexed tidy completed

end MapChain.Session
