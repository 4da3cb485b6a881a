import MapChain.Proofs.Session.Folding

/-!
What a load takes from the nodes that were there before, whether it completes or not. Main
statement: a node that is loaded, or on its way from an earlier load, stays as it is, and a node
that is still to be loaded afterwards keeps its content and its map.
-/

set_option autoImplicit false

namespace MapChain

/-- What may happen to a node while others, or the node itself, are loaded. -/
structure Node.Outlasts (old new : Node) : Prop where
  path : new.path = old.path
  /-- A node that is being fetched for an earlier load, or is loaded, is left alone. -/
  settled : old.isPending = false → new = old
  visited : old.state ≠ .unvisited → new.state ≠ .unvisited
  /-- Content may turn up where there is none, but nothing is lost before the node's own turn. -/
  kept : new.isPending = true → old.isPending = true ∧ new.map = old.map ∧
    ∀ text, old.content = some text → new.content = some text

namespace Node

variable {given : Bool → String → Prop} {old new newer : Node}

theorem outlasts_refl (node : Node) : node.Outlasts node :=
  ⟨rfl, fun _ => rfl, id, fun pending => ⟨pending, rfl, fun _ shown => shown⟩⟩

theorem Outlasts.trans (first : old.Outlasts new) (second : new.Outlasts newer) :
    old.Outlasts newer where
  path := second.path.trans first.path
  settled := by
    intro settled
    have same := first.settled settled
    rw [← same] at settled
    exact (second.settled settled).trans same
  visited := fun visited => second.visited (first.visited visited)
  kept := by
    intro pending
    obtain ⟨between, map, content⟩ := second.kept pending
    obtain ⟨before, same, known⟩ := first.kept between
    exact ⟨before, map.trans same, fun text shown => content text (known text shown)⟩

theorem Awaits.outlasts (awaits : old.Awaits given new) : old.Outlasts new where
  path := awaits.path
  settled := awaits.eq_of_settled
  visited := by
    intro visited
    rw [awaits.visited visited]
    exact visited
  kept := by
    intro pending
    refine ⟨awaits.pending.symm.trans pending, awaits.map, ?_⟩
    intro text shown
    rcases awaits.content with same | ⟨-, empty, -⟩
    · exact same.trans shown
    · rw [shown] at empty
      cases empty

theorem outlasts_of_queued (queued : old.state = .queued) (path : new.path = old.path)
    (gone : new.isPending = false) : old.Outlasts new where
  path := path
  settled := by simp [isPending, queued]
  visited := by
    intro _ unvisited
    simp [isPending, unvisited] at gone
  kept := by
    intro pending
    rw [gone] at pending
    cases pending

end Node

namespace Graph

variable {given : Bool → String → Prop} {wave landing later : List NodeId} {requests : List Request}
  {graph next last : Graph}

/-- Nodes outlast what is done, and those that are queued wait on unless their turn comes. -/
def Survives (wave : List NodeId) (graph next : Graph) : Prop :=
  ∀ id old, graph.node? id = some old → ∃ new, next.node? id = some new ∧ old.Outlasts new ∧
    (old.state = .queued → id ∉ wave → new.state = .queued)

theorem survives_refl (wave : List NodeId) (graph : Graph) : graph.Survives wave graph :=
  fun _ old present => ⟨old, present, old.outlasts_refl, fun queued _ => queued⟩

theorem Survives.trans (first : Survives wave graph next) (second : Survives later next last)
    (fresh : ∀ id ∈ later, graph.Unseen id) : Survives wave graph last := by
  intro id old present
  obtain ⟨new, there, outlasts, waits⟩ := first id old present
  obtain ⟨newer, found, onward, still⟩ := second id new there
  refine ⟨newer, found, outlasts.trans onward, ?_⟩
  intro queued elsewhere
  apply still (waits queued elsewhere)
  intro member
  rw [fresh id member old present] at queued
  cases queued

theorem HandsOut.survives (hands : HandsOut wave requests graph next) :
    graph.Survives wave next := by
  intro id old present
  rcases hands.waits id old present with there | ⟨member, queued, handed⟩
  · exact ⟨old, there, old.outlasts_refl, fun queued _ => queued⟩
  · exact ⟨old.handOut, handed, Node.outlasts_of_queued queued rfl rfl,
      fun _ elsewhere => absurd member elsewhere⟩

theorem HandsOut.there (hands : HandsOut wave requests graph next) {request : Request}
    (member : request ∈ requests) : ∃ node, next.node? request.id = some node := by
  obtain ⟨-, old, present, -, -⟩ := hands.asked request member
  obtain ⟨new, found, -⟩ := hands.survives request.id old present
  exact ⟨new, found⟩

/-- A wave survives its answers, since these are for nodes that have been handed out. -/
theorem HandsOut.survives_fold (hands : HandsOut wave requests graph next)
    (folds : Folds given (requests.map (·.id)) next last) : graph.Survives wave last := by
  intro id old present
  obtain ⟨between, there⟩ : ∃ between, next.node? id = some between := by
    rcases hands.waits id old present with there | ⟨-, -, there⟩
    · exact ⟨_, there⟩
    · exact ⟨_, there⟩
  obtain ⟨same, found, before, waits⟩ := hands.survives id old present
  rw [there] at found
  cases found
  obtain ⟨new, shown, awaits | ⟨member, loaded, path⟩⟩ := folds.waits id between there
  · refine ⟨new, shown, before.trans awaits.outlasts, ?_⟩
    intro queued elsewhere
    have still := waits queued elsewhere
    rw [awaits.visited (by simp [still])]
    exact still
  · obtain ⟨request, inside, rfl⟩ := List.mem_map.1 member
    obtain ⟨own, node, known, queued, -⟩ := hands.asked request inside
    rw [present] at known
    cases known
    exact ⟨new, shown,
      Node.outlasts_of_queued queued (path.trans before.path) (by simp [Node.isPending, loaded]),
      fun _ elsewhere => absurd own elsewhere⟩

end Graph

namespace Session

variable {files : FileSystem} {session : Session} {root : NodeId} {node : Node}

/-- What a wave has done to a session, whether it has failed or given out the next one. -/
structure Passes (given : Bool → String → Prop) (session : Session) (wave : List NodeId)
    (ended : Session × Except Fault (List NodeId)) : Prop where
  unmoved : ended.1.directory = session.directory
  rooted : ended.1.roots = session.roots
  indexed : ended.1.graph.Indexed
  survives : session.graph.Survives wave ended.1.graph
  comes : ∀ id new, ended.1.graph.node? id = some new → session.graph.node? id = none →
    new.Arrives given
  fresh : ∀ next, ended.2 = .ok next → ∀ id ∈ next, session.graph.Unseen id

theorem passes_wave {given : Bool → String → Prop} (indexed : session.graph.Indexed)
    (wave : List NodeId)
    (carried : ∀ request ∈ (session.beginWave wave).2, ∀ fetched,
      request.fetch files session.directory session.roots = .ok fetched →
        ∀ child ∈ fetched.children, ∀ text, child.content = some text →
          given child.path.isSome text) :
    session.Passes given wave
      (advanceConcurrent files (session.beginWave wave).1 (session.beginWave wave).2) := by
  have hands := hands_out_begin_wave session wave
  have still := indexed_begin_wave indexed wave
  have unmoved := directory_begin_wave session wave
  have rooted := roots_begin_wave session wave
  rw [advance_concurrent_eq]
  generalize session.beginWave wave = begun at hands still unmoved rooted carried ⊢
  obtain ⟨between, requests⟩ := begun
  dsimp only at hands still unmoved rooted carried ⊢
  have folds : Graph.Folds given (requests.map (·.id)) between.graph
      (between.integrateAll
        (requests.map (·.fetch files between.directory between.roots))).1.graph := by
    apply folds_integrate_all still fun _ member => hands.there member
    intro request member fetched answered
    rw [unmoved, rooted] at answered
    exact carried request member fetched answered
  refine ⟨?_, ?_, indexed_integrate_all still _, hands.survives_fold folds, ?_, ?_⟩
  · exact (directory_integrate_all between _).trans unmoved
  · exact (roots_integrate_all between _).trans rooted
  · intro id new found absent
    exact folds.comes id new found (hands.absent id absent)
  · intro next completed id member
    exact hands.unseen (unseen_integrate_all still completed member)

theorem passes_freely (files : FileSystem) (indexed : session.graph.Indexed)
    (wave : List NodeId) :
    session.Passes (fun _ _ => True) wave
      (advanceConcurrent files (session.beginWave wave).1 (session.beginWave wave).2) :=
  passes_wave indexed wave fun _ _ _ _ _ _ _ _ => trivial

theorem survives_run_waves (indexed : session.graph.Indexed) (waves : Nat) (wave : List NodeId) :
    session.graph.Survives wave
      (runWaves (advanceConcurrent files) waves session wave).1.graph := by
  induction waves generalizing session wave with
  | zero => cases wave <;> exact Graph.survives_refl _ session.graph
  | succ waves induction =>
      cases wave with
      | nil => exact Graph.survives_refl _ session.graph
      | cons id wave =>
          have passes := passes_freely files indexed (id :: wave)
          simp only [runWaves]
          generalize session.beginWave (id :: wave) = begun at passes ⊢
          obtain ⟨between, requests⟩ := begun
          dsimp only at passes ⊢
          generalize advanceConcurrent files between requests = ended at passes ⊢
          obtain ⟨last, fault | next⟩ := ended
          · exact passes.survives
          · exact passes.survives.trans (induction passes.indexed next) (passes.fresh next rfl)

theorem survives_load (indexed : session.graph.Indexed) (pace : Pace) (files : FileSystem)
    (waves : Nat) (root : NodeId) :
    session.graph.Survives [] (session.load pace files waves root).1.graph := by
  rw [load_eq]
  rcases enqueue_cases session root with ⟨idle, -⟩ | ⟨node, present, unvisited, queued⟩
  · rw [idle, run_waves_nil]
    exact Graph.survives_refl [] session.graph
  · have still := indexed_enqueue indexed root
    rw [queued] at still ⊢
    refine Graph.Survives.trans ?_ (survives_run_waves still waves [root]) ?_
    · intro id old there
      by_cases same : id = root
      · rw [same, present] at there
        cases there
        refine ⟨{ node with state := .queued }, ?_, ?_, fun _ _ => rfl⟩
        · rw [same, Graph.node_modify_self, present]
          rfl
        · have waits : node.Awaits (fun _ _ => True) { node with state := .queued } :=
            Node.awaits_queue unvisited
          exact waits.outlasts
      · refine ⟨old, ?_, old.outlasts_refl, fun queued _ => queued⟩
        rw [Graph.node_modify_of_ne session.graph _ same]
        exact there
    · intro id member old there
      rw [List.mem_singleton] at member
      rw [member, present] at there
      cases there
      exact unvisited

theorem visited_of_load (indexed : session.graph.Indexed) {pace : Pace} {waves : Nat}
    (present : (session.load pace files waves root).1.graph.node? root = some node) :
    node.state ≠ .unvisited := by
  rw [load_eq] at present
  cases begun : (session.enqueue root).1.graph.node? root with
  | some first =>
      obtain ⟨last, there, outlasts, -⟩ := survives_run_waves (indexed_enqueue indexed root) waves
        (session.enqueue root).2 root first begun
      rw [present] at there
      cases there
      exact outlasts.visited (visited_enqueue begun)
  | none =>
      have idle : (session.enqueue root).2 = [] := by
        rcases enqueue_cases session root with ⟨idle, -⟩ | ⟨old, there, -, queued⟩
        · rw [idle]
        · rw [queued, Graph.node_modify_self, there] at begun
          cases begun
      rw [idle, run_waves_nil, begun] at present
      cases present

end Session

end MapChain
