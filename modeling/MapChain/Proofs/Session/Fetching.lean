import MapChain.Proofs.Session.Soundness

/-!
Handing nodes out to be fetched. Main statement: a wave that is handed out leaves a sound session,
and no node of the wave in the queue.
-/

set_option autoImplicit false

namespace MapChain.Session

variable {files : FileSystem} {directory : Path} {roots : List Path} {flight : List Request}
  {session : Session} {id : NodeId}

theorem begin_fetch_cases (session : Session) (id : NodeId) :
    (session.beginFetch id = (session, none) ∧
        ∀ node, session.graph.node? id = some node → node.state ≠ .queued) ∨
      ∃ node, session.graph.node? id = some node ∧ node.state = .queued ∧
        session.beginFetch id =
          ({ session with
              graph := session.graph.modify id fun node =>
                { node with state := .fetching, content := none, map := none } },
            some ⟨id, node.path, node.content, node.map⟩) := by
  cases present : session.graph.node? id with
  | none =>
      refine Or.inl ⟨by simp [beginFetch, present], ?_⟩
      intro node there
      cases there
  | some node =>
      by_cases queued : node.state = .queued
      · exact Or.inr ⟨node, rfl, queued, by simp [beginFetch, present, queued]⟩
      · refine Or.inl ⟨by simp [beginFetch, present, queued], ?_⟩
        intro other there
        cases there
        exact queued

theorem ne_of_flying {node : Node} (flying : session.graph.Flying flight)
    (present : session.graph.node? id = some node) (queued : node.state = .queued)
    {request : Request} (member : request ∈ flight) : request.id ≠ id := by
  intro same
  obtain ⟨other, there, fetching, -⟩ := flying.waits request member
  rw [same, present] at there
  cases there
  rw [queued] at fetching
  cases fetching

theorem advances_begin_fetch (flying : session.graph.Flying flight) (id : NodeId) :
    Graph.Advances flight (flight ++ (session.beginFetch id).2.toList) session.graph
      (session.beginFetch id).1.graph := by
  rcases begin_fetch_cases session id with ⟨idle, -⟩ | ⟨node, present, queued, handed⟩
  · rw [idle]
    exact Graph.advances_land session.graph (by simp)
  · rw [handed]
    apply Graph.advances_modify
    · intro old there
      rw [present] at there
      cases there
      refine ⟨rfl, ?_, ?_, ?_⟩
      · intro loaded
        rw [queued] at loaded
        cases loaded
      · intro visited fetching
        cases fetching
      · intro content bears
        refine ⟨bears.nameless, ?_, fun settled => absurd rfl settled⟩
        intro fetching request member target
        rcases List.mem_append.1 member with early | last
        · exact absurd target (ne_of_flying flying present queued early)
        · rw [Option.toList_some, List.mem_singleton] at last
          rw [last]
          exact bears.kept (by simp [queued])
    · intro other old different there
      refine ⟨rfl, fun _ => rfl, fun visited => visited, ?_⟩
      intro content bears
      refine ⟨bears.nameless, ?_, bears.kept⟩
      intro fetching request member target
      rcases List.mem_append.1 member with early | last
      · exact bears.handed fetching request early target
      · rw [Option.toList_some, List.mem_singleton] at last
        rw [last] at target
        exact absurd target.symm different

theorem flying_begin_fetch (flying : session.graph.Flying flight) (id : NodeId) :
    (session.beginFetch id).1.graph.Flying (flight ++ (session.beginFetch id).2.toList) := by
  rcases begin_fetch_cases session id with ⟨idle, -⟩ | ⟨node, present, queued, handed⟩
  · rw [idle, Option.toList_none, List.append_nil]
    exact flying
  · rw [handed, Option.toList_some]
    have apart (request : Request) (member : request ∈ flight) : request.id ≠ id :=
      ne_of_flying flying present queued member
    constructor
    · rw [List.map_append, List.nodup_append]
      refine ⟨flying.once, by simp, ?_⟩
      intro early member last target
      obtain ⟨request, inside, rfl⟩ := List.mem_map.1 member
      rw [List.map_singleton, List.mem_singleton] at target
      rw [target]
      exact apart request inside
    · intro request member
      rcases List.mem_append.1 member with early | last
      · obtain ⟨other, there, waits⟩ := flying.waits request early
        refine ⟨other, ?_, waits⟩
        rw [Graph.node_modify_of_ne session.graph _ (apart request early)]
        exact there
      · rw [List.mem_singleton] at last
        rw [last]
        refine ⟨{ node with state := .fetching, content := none, map := none }, ?_, rfl, rfl, rfl⟩
        rw [Graph.node_modify_self, present]
        rfl

theorem Sound.begin_fetch (sound : session.Sound files directory roots flight) (id : NodeId) :
    (session.beginFetch id).1.Sound files directory roots
      (flight ++ (session.beginFetch id).2.toList) := by
  have advances := advances_begin_fetch sound.flying id
  have flying := flying_begin_fetch sound.flying id
  rcases begin_fetch_cases session id with ⟨idle, -⟩ | ⟨node, present, queued, handed⟩
  · rw [idle, Option.toList_none, List.append_nil]
    exact sound
  · rw [handed] at advances flying ⊢
    apply sound.step
    · rfl
    · rfl
    · exact advances
    · exact Graph.indexed_modify sound.indexed fun _ => rfl
    · exact flying
    · intro other new there settled
      rcases Graph.node_modify_cases there with ⟨-, before⟩ | ⟨rfl, old, before, rfl⟩
      · exact Or.inl before
      · rcases settled with loaded | sources
        · cases loaded
        · rw [present] at before
          cases before
          have loaded := sound.bare other node present sources
          rw [queued] at loaded
          cases loaded
    · intro digest lines member
      exact Or.inl member

theorem Sound.begin_wave (sound : session.Sound files directory roots flight)
    (wave : List NodeId) :
    (session.beginWave wave).1.Sound files directory roots
      (flight ++ (session.beginWave wave).2) := by
  induction wave generalizing session flight with
  | nil =>
      simp only [beginWave, List.append_nil]
      exact sound
  | cons id wave induction =>
      have rest := induction (sound.begin_fetch id)
      rw [List.append_assoc] at rest
      exact rest

theorem advances_begin_wave (sound : session.Sound files directory roots flight)
    (wave : List NodeId) :
    Graph.Advances flight (flight ++ (session.beginWave wave).2) session.graph
      (session.beginWave wave).1.graph := by
  induction wave generalizing session flight with
  | nil => exact Graph.advances_land session.graph (by simp [beginWave])
  | cons id wave induction =>
      have rest := induction (sound.begin_fetch id)
      rw [List.append_assoc] at rest
      exact (advances_begin_fetch sound.flying id).trans rest

theorem tidy_begin_fetch {queue waiting : List NodeId}
    (tidy : session.graph.Tidy (id :: queue) waiting) :
    (session.beginFetch id).1.graph.Tidy queue
      (waiting ++ (session.beginFetch id).2.toList.map (·.id)) := by
  rcases begin_fetch_cases session id with ⟨idle, unqueued⟩ | ⟨node, present, queued, handed⟩
  · rw [idle, Option.toList_none, List.map_nil, List.append_nil]
    refine ⟨?_, tidy.fetching⟩
    intro other new there stage
    rcases List.mem_cons.1 (tidy.queued other new there stage) with same | later
    · rw [same] at there
      exact absurd stage (unqueued new there)
    · exact later
  · rw [handed, Option.toList_some, List.map_singleton]
    constructor
    · intro other new there stage
      rcases Graph.node_modify_cases there with ⟨different, before⟩ | ⟨-, old, -, rfl⟩
      · exact List.mem_of_ne_of_mem different (tidy.queued other new before stage)
      · cases stage
    · intro other new there stage
      rcases Graph.node_modify_cases there with ⟨-, before⟩ | ⟨rfl, -⟩
      · exact List.mem_append_left _ (tidy.fetching other new before stage)
      · exact List.mem_append_right _ (List.mem_singleton.2 rfl)

theorem tidy_begin_wave {wave queue waiting : List NodeId}
    (tidy : session.graph.Tidy (wave ++ queue) waiting) :
    (session.beginWave wave).1.graph.Tidy queue
      (waiting ++ (session.beginWave wave).2.map (·.id)) := by
  induction wave generalizing session waiting with
  | nil =>
      simp only [beginWave, List.map_nil, List.append_nil]
      exact tidy
  | cons id wave induction =>
      have rest := induction (tidy_begin_fetch tidy)
      rw [List.append_assoc, ← List.map_append] at rest
      exact rest

end MapChain.Session
