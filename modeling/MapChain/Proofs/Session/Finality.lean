import MapChain.Proofs.Session.Histories

/-!
How far the loading of a node has come, over all that is asked of a session. Main statement: it
only goes on, what is loaded stays as it is for good, and no node is fetched twice.
-/

set_option autoImplicit false

namespace MapChain

def LoadState.rank : LoadState → Nat
  | .unvisited => 0
  | .queued => 1
  | .fetching => 2
  | .loaded => 3

/-- What may happen to a node over time. -/
structure Node.Matures (old new : Node) : Prop where
  path : new.path = old.path
  forward : old.state.rank ≤ new.state.rank
  final : old.state = .loaded → new = old

namespace Node

variable {old new newer : Node}

theorem matures_refl (node : Node) : node.Matures node := ⟨rfl, Nat.le_refl _, fun _ => rfl⟩

theorem Matures.trans (first : old.Matures new) (second : new.Matures newer) :
    old.Matures newer where
  path := second.path.trans first.path
  forward := Nat.le_trans first.forward second.forward
  final := by
    intro loaded
    have same := first.final loaded
    rw [← same] at loaded
    exact (second.final loaded).trans same

theorem matures_of_visited (path : new.path = old.path)
    (visited : old.state ≠ .unvisited → new.state ≠ .unvisited)
    (fetching : old.state = .fetching → new.state = .fetching)
    (loaded : old.state = .loaded → new = old) : old.Matures new where
  path := path
  forward := by
    cases stage : old.state with
    | unvisited => exact Nat.zero_le _
    | queued =>
        have begun := visited (by simp [stage])
        cases reached : new.state with
        | unvisited => exact absurd reached begun
        | queued => exact Nat.le_refl _
        | fetching => exact Nat.le_succ 1
        | loaded => exact Nat.le_add_left 1 2
    | fetching => rw [fetching stage]
    | loaded => rw [loaded stage, stage]
  final := loaded

theorem Persists.matures (persists : old.Persists new) : old.Matures new :=
  matures_of_visited persists.path persists.visited
    (fun fetching => (persists.fetching fetching).1) persists.loaded

theorem Outlasts.matures (outlasts : old.Outlasts new) : old.Matures new := by
  apply matures_of_visited outlasts.path outlasts.visited
  · intro fetching
    rw [outlasts.settled (by simp [isPending, fetching])]
    exact fetching
  · intro loaded
    exact outlasts.settled (by simp [isPending, loaded])

end Node

namespace Graph

variable {given : Bool → String → Prop} {graph next later latest : Graph} {id : NodeId}
  {node : Node} {landing : List NodeId} {seen : List NodeId}

def Matures (graph later : Graph) : Prop :=
  ∀ id old, graph.node? id = some old → ∃ new, later.node? id = some new ∧ old.Matures new

theorem matures_refl (graph : Graph) : graph.Matures graph :=
  fun _ old present => ⟨old, present, old.matures_refl⟩

theorem Matures.trans (first : graph.Matures later) (second : later.Matures latest) :
    graph.Matures latest := by
  intro id old present
  obtain ⟨new, there, step⟩ := first id old present
  obtain ⟨newer, last, onward⟩ := second id new there
  exact ⟨newer, last, step.trans onward⟩

theorem Grows.matures (grows : graph.Grows later) : graph.Matures later := by
  intro id old present
  obtain ⟨new, there, persists⟩ := grows.persists id old present
  exact ⟨new, there, persists.matures⟩

theorem Survives.matures {wave : List NodeId} (survives : graph.Survives wave later) :
    graph.Matures later := by
  intro id old present
  obtain ⟨new, there, outlasts, -⟩ := survives id old present
  exact ⟨new, there, outlasts.matures⟩

theorem Folds.of_loaded (folds : Folds given landing graph next)
    (there : next.node? id = some node) (loaded : node.state = .loaded) :
    id ∈ landing ∨ graph.node? id = some node := by
  cases before : graph.node? id with
  | none =>
      have arrives := folds.comes id node there before
      rw [arrives.queued] at loaded
      cases loaded
  | some old =>
      obtain ⟨new, found, awaits | ⟨member, -, -⟩⟩ := folds.waits id old before
      · rw [there] at found
        cases found
        have settled : old.isPending = false := by
          rw [← awaits.pending]
          simp [Node.isPending, loaded]
        rw [awaits.eq_of_settled settled]
        exact Or.inr rfl
      · exact Or.inl member

theorem HandsOut.of_loaded {wave : List NodeId} {requests : List Request}
    (hands : HandsOut wave requests graph next) (there : next.node? id = some node)
    (loaded : node.state = .loaded) : graph.node? id = some node := by
  cases before : graph.node? id with
  | none =>
      rw [hands.absent id before] at there
      cases there
  | some old =>
      rcases hands.waits id old before with still | ⟨-, -, handed⟩
      · rw [there] at still
        exact still.symm
      · rw [there] at handed
        cases handed
        cases loaded

/-- The nodes that have been fetched, each of them once. -/
structure Spent (graph : Graph) (fetched : List NodeId) : Prop where
  once : fetched.Nodup
  gone : ∀ id ∈ fetched, ∃ node, graph.node? id = some node ∧ node.isPending = false
  noted : ∀ id node, graph.node? id = some node → node.state = .loaded → id ∈ fetched

theorem Seeded.spent (seeded : graph.Seeded) : graph.Spent [] where
  once := List.nodup_nil
  gone := by simp
  noted := fun id node present loaded => absurd loaded (seeded.untouched id node present).1

theorem Spent.grow (spent : graph.Spent seen) (grows : graph.Grows later) : later.Spent seen where
  once := spent.once
  gone := by
    intro id member
    obtain ⟨old, present, settled⟩ := spent.gone id member
    obtain ⟨new, there, persists⟩ := grows.persists id old present
    exact ⟨new, there, persists.pending.trans settled⟩
  noted := fun id node there loaded => spent.noted id node (grows.of_loaded there loaded) loaded

end Graph

namespace Session

variable {files : FileSystem} {session : Session} {seen : List NodeId} {requests : List Request}
  {id : NodeId} {node : Node} {fetched : Fetched}

def fetchedBlocking (files : FileSystem) (session : Session) : List Request → List NodeId
  | [] => []
  | request :: requests =>
      request.id ::
        match request.fetch files session.directory session.roots with
        | .error _ => []
        | .ok fetched =>
            match session.integrate fetched with
            | (_, .error _) => []
            | (session, .ok _) => fetchedBlocking files session requests

/-- The nodes of a wave that are handed to a fetch. Side by side, all of them are. -/
def fetchedIn (files : FileSystem) (manner : Manner) (session : Session)
    (requests : List Request) : List NodeId :=
  match manner with
  | .blocking => fetchedBlocking files session requests
  | .concurrent _ => requests.map (·.id)

def fetches (session : Session) (turns : List Turn) : List NodeId :=
  session.watchAll fetchedIn turns

theorem fetched_blocking_sublist (files : FileSystem) (session : Session)
    (requests : List Request) :
    (fetchedBlocking files session requests).Sublist (requests.map (·.id)) := by
  induction requests generalizing session with
  | nil => exact .slnil
  | cons request requests induction =>
      rw [fetchedBlocking, List.map_cons]
      apply List.Sublist.cons_cons
      cases request.fetch files session.directory session.roots with
      | error fault => exact List.nil_sublist _
      | ok fetched =>
          dsimp only
          generalize session.integrate fetched = integrated
          obtain ⟨next, fault | pending⟩ := integrated
          · exact List.nil_sublist _
          · exact induction next

theorem fetched_in_sublist (files : FileSystem) (manner : Manner) (session : Session)
    (requests : List Request) :
    (fetchedIn files manner session requests).Sublist (requests.map (·.id)) := by
  cases manner with
  | blocking => exact fetched_blocking_sublist files session requests
  | concurrent schedule => exact List.Sublist.refl _

theorem loaded_of_integrate (indexed : session.graph.Indexed)
    (there : (session.integrate fetched).1.graph.node? id = some node)
    (loaded : node.state = .loaded) : id = fetched.id ∨ session.graph.node? id = some node := by
  have folds : Graph.Folds (fun _ _ => True) [fetched.id] session.graph
      (session.integrate fetched).1.graph := folds_integrate indexed fun _ _ _ _ => trivial
  rcases folds.of_loaded there loaded with landed | before
  · exact Or.inl (List.mem_singleton.1 landed)
  · exact Or.inr before

theorem loaded_of_blocking (indexed : session.graph.Indexed)
    (there : (advanceBlocking files session requests).1.graph.node? id = some node)
    (loaded : node.state = .loaded) :
    id ∈ fetchedBlocking files session requests ∨ session.graph.node? id = some node := by
  induction requests generalizing session with
  | nil => exact Or.inr there
  | cons request requests induction =>
      rw [advanceBlocking] at there
      rw [fetchedBlocking]
      cases answered : request.fetch files session.directory session.roots with
      | error fault =>
          rw [answered] at there
          exact Or.inr there
      | ok fetched =>
          obtain ⟨target, -, -⟩ := Request.of_fetch answered
          have first (shown : (session.integrate fetched).1.graph.node? id = some node) :=
            loaded_of_integrate indexed shown loaded
          have still := indexed_integrate indexed fetched
          rw [answered] at there
          dsimp only at there ⊢
          generalize session.integrate fetched = integrated at there first still ⊢
          obtain ⟨next, fault | pending⟩ := integrated
          · rcases first there with landed | before
            · rw [landed, target]
              exact Or.inl List.mem_cons_self
            · exact Or.inr before
          · rcases induction still there with later | between
            · exact Or.inl (List.mem_cons_of_mem _ later)
            · rcases first between with landed | before
              · rw [landed, target]
                exact Or.inl List.mem_cons_self
              · exact Or.inr before

theorem flying_begin_wave (session : Session) (wave : List NodeId) {flight : List Request}
    (flying : session.graph.Flying flight) :
    (session.beginWave wave).1.graph.Flying (flight ++ (session.beginWave wave).2) := by
  induction wave generalizing session flight with
  | nil =>
      simp only [beginWave, List.append_nil]
      exact flying
  | cons id wave induction =>
      have rest := induction (session.beginFetch id).1 (flying_begin_fetch flying id)
      rw [List.append_assoc] at rest
      exact rest

/-- The answers that come in for a wave are those to its own requests. -/
theorem folds_wave (indexed : session.graph.Indexed) (files : FileSystem) (wave : List NodeId) :
    Graph.Folds (fun _ _ => True) ((session.beginWave wave).2.map (·.id))
      (session.beginWave wave).1.graph
      (advanceConcurrent files (session.beginWave wave).1 (session.beginWave wave).2).1.graph := by
  have flying := flying_begin_wave session wave (Graph.flying_nil session.graph)
  rw [advance_concurrent_eq]
  apply folds_integrate_all (indexed_begin_wave indexed wave)
  · intro request member
    obtain ⟨node, present, -⟩ := flying.waits request member
    exact ⟨node, present⟩
  · exact fun _ _ _ _ _ _ _ _ => trivial

/-- A node that a wave has handed out is not handed out again. -/
theorem settled_of_wave (indexed : session.graph.Indexed) (files : FileSystem)
    {wave : List NodeId} {request : Request} (member : request ∈ (session.beginWave wave).2) :
    ∃ node, (advanceConcurrent files (session.beginWave wave).1
      (session.beginWave wave).2).1.graph.node? request.id = some node ∧
        node.isPending = false := by
  have flying := flying_begin_wave session wave (Graph.flying_nil session.graph)
  obtain ⟨old, present, fetching, -⟩ := flying.waits request member
  have settled : old.isPending = false := by simp [Node.isPending, fetching]
  obtain ⟨new, there, awaits | ⟨-, loaded, -⟩⟩ :=
    (folds_wave indexed files wave).waits request.id old present
  · exact ⟨new, there, awaits.pending.trans settled⟩
  · exact ⟨new, there, by simp [Node.isPending, loaded]⟩

theorem spent_wave (indexed : session.graph.Indexed) (spent : session.graph.Spent seen)
    (manner : Manner) (files : FileSystem) (wave : List NodeId) :
    (manner.advance files (session.beginWave wave).1
      (session.beginWave wave).2).1.graph.Spent
      (seen ++ fetchedIn files manner (session.beginWave wave).1 (session.beginWave wave).2) := by
  have hands := hands_out_begin_wave session wave
  have still := indexed_begin_wave indexed wave
  have flying := flying_begin_wave session wave (Graph.flying_nil session.graph)
  have passes := passes_freely files indexed wave
  have folds := folds_wave indexed files wave
  have handed (request : Request) (member : request ∈ (session.beginWave wave).2) :=
    settled_of_wave indexed files member
  rw [List.nil_append] at flying
  rw [← manner.advance_eq] at passes folds handed
  generalize session.beginWave wave = begun at hands still flying passes folds handed ⊢
  obtain ⟨between, requests⟩ := begun
  dsimp only at hands still flying passes folds handed ⊢
  have own := fetched_in_sublist files manner between requests
  constructor
  · rw [List.nodup_append]
    refine ⟨spent.once, flying.once.sublist own, ?_⟩
    intro early before late after same
    obtain ⟨request, member, target⟩ := List.mem_map.1 (own.subset after)
    obtain ⟨node, present, settled⟩ := spent.gone early before
    obtain ⟨-, old, there, queued, -⟩ := hands.asked request member
    rw [target, ← same, present] at there
    cases there
    simp [Node.isPending, queued] at settled
  · intro id member
    rcases List.mem_append.1 member with early | late
    · obtain ⟨old, present, settled⟩ := spent.gone id early
      obtain ⟨new, there, outlasts, -⟩ := passes.survives id old present
      rw [outlasts.settled settled] at there
      exact ⟨old, there, settled⟩
    · obtain ⟨request, inside, rfl⟩ := List.mem_map.1 (own.subset late)
      exact handed request inside
  · intro id node there loaded
    have answered : id ∈ fetchedIn files manner between requests ∨
        between.graph.node? id = some node := by
      cases manner with
      | blocking => exact loaded_of_blocking still there loaded
      | concurrent schedule => exact folds.of_loaded there loaded
    rcases answered with fresh | before
    · exact List.mem_append_right seen fresh
    · exact List.mem_append_left _ (spent.noted id node (hands.of_loaded before loaded) loaded)

theorem spent_play (indexed : session.graph.Indexed) (spent : session.graph.Spent seen)
    (turn : Turn) :
    (session.play turn).1.graph.Indexed ∧ session.graph.Matures (session.play turn).1.graph ∧
      (session.play turn).1.graph.Spent (seen ++ session.watch fetchedIn turn) := by
  obtain ⟨files, waves, call⟩ := turn
  cases call with
  | addRoot file =>
      have grows := Graph.grows_attach indexed (some (session.inputPath file)) none
      simp only [watch, List.append_nil]
      exact ⟨Graph.indexed_attach indexed (some (session.inputPath file)) none, grows.matures,
        spent.grow grows⟩
  | addContent file content =>
      simp only [watch, List.append_nil]
      rcases add_content_cases session file content with refused | taken
      · simp only [play, Session.call, refused]
        exact ⟨indexed, Graph.matures_refl session.graph, spent⟩
      · have grows := Graph.grows_supply indexed (file.map session.inputPath) content
        simp only [play, Session.call, taken]
        exact ⟨Graph.indexed_supply indexed _ content, grows.matures, spent.grow grows⟩
  | load manner root =>
      have survives := survives_load indexed .blocking files waves root
      have queued := indexed_enqueue indexed root
      have begun : (session.enqueue root).1.graph.Spent seen := by
        rcases enqueue_cases session root with ⟨idle, -⟩ | ⟨node, present, unvisited, moved⟩
        · rw [idle]
          exact spent
        · rw [moved]
          exact spent.grow (Graph.grows_queue present unvisited)
      have waved (between : Session) (seen wave : List NodeId)
          (holds : between.graph.Indexed ∧ between.graph.Spent seen) :
          let begun := between.beginWave wave
          let ended := (manner.advance files begun.1 begun.2).1
          ended.graph.Indexed ∧
            ended.graph.Spent (seen ++ fetchedIn files manner begun.1 begun.2) := by
        refine ⟨?_, spent_wave holds.1 holds.2 manner files wave⟩
        rw [manner.advance_eq]
        exact (passes_freely files holds.1 wave).indexed
      have advanced := watch_waves_keeps
        (fun session seen => session.graph.Indexed ∧ session.graph.Spent seen)
        (manner.advance files) (fetchedIn files manner) waved waves (session.enqueue root).2
        ⟨queued, begun⟩
      rw [load_eq, ← manner.advance_eq] at survives
      rw [play_load]
      exact ⟨advanced.1, survives.matures, advanced.2⟩

theorem spent_play_all (indexed : session.graph.Indexed) (spent : session.graph.Spent seen)
    (turns : List Turn) :
    session.graph.Matures (session.playAll turns).1.graph ∧
      (session.playAll turns).1.graph.Spent (seen ++ session.fetches turns) := by
  induction turns generalizing session seen with
  | nil =>
      rw [fetches, watchAll, List.append_nil]
      exact ⟨Graph.matures_refl session.graph, spent⟩
  | cons turn turns induction =>
      obtain ⟨still, matures, played⟩ := spent_play indexed spent turn
      obtain ⟨onward, last⟩ := induction still played
      rw [List.append_assoc] at last
      exact ⟨matures.trans onward, last⟩

/-- Whatever is asked of a session, and however it ends: nodes stay and keep their paths, their
loading only goes on, what is loaded stays as it is, and over the whole history no node is handed
to a fetch twice. The nodes that are loaded are among those that were. -/
theorem loaded_nodes_are_final (directory : Path) (options : Options) (early late : List Turn) :
    let session := ((start directory options).playAll early).1
    let last := (session.playAll late).1
    (∀ id old, session.graph.node? id = some old → ∃ new, last.graph.node? id = some new ∧
        new.path = old.path ∧ old.state.rank ≤ new.state.rank ∧
        (old.state = .loaded → new = old)) ∧
      ((start directory options).fetches (early ++ late)).Nodup ∧
      ∀ id node, last.graph.node? id = some node → node.state = .loaded →
        id ∈ (start directory options).fetches (early ++ late) := by
  intro session last
  have seeded := seeded_start directory options
  have indexed : session.graph.Indexed :=
    follows_keeps (fun session => session.graph.Indexed)
      (fun _ path indexed => Graph.indexed_attach indexed path none)
      (fun _ path content indexed => Graph.indexed_supply indexed path content)
      (fun _ root indexed => indexed_enqueue indexed root)
      (fun _ id indexed => indexed_begin_fetch indexed id)
      (fun _ fetched indexed => indexed_integrate indexed fetched)
      (follows_of_play_all _ early) seeded.indexed
  have before := (spent_play_all seeded.indexed seeded.spent early).2
  have matures := (spent_play_all indexed before late).1
  have spent := (spent_play_all seeded.indexed seeded.spent (early ++ late)).2
  rw [play_all_append, List.nil_append] at spent
  refine ⟨?_, spent.once, spent.noted⟩
  intro id old present
  obtain ⟨new, there, step⟩ := matures id old present
  exact ⟨new, there, step.path, step.forward, step.final⟩

end Session

end MapChain
