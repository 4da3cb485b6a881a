import MapChain.Proofs.Session.Awaiting
import MapChain.Proofs.Session.Waves

/-!
What one wave does to each node of a graph. Main statements: a wave hands out those of its nodes
that are queued and does nothing else; its answers load nodes that were handed out, take nothing
from the others, and give out nodes only that had not been visited before.
-/

set_option autoImplicit false

namespace MapChain

/-- A node while it is being fetched. What was known of it is in the request. -/
def Node.handOut (node : Node) : Node :=
  { node with state := .fetching, content := none, map := none }

def Node.ask (node : Node) (id : NodeId) : Request := ⟨id, node.path, node.content, node.map⟩

namespace Graph

variable {given : Bool → String → Prop} {wave rest landing later : List NodeId}
  {requests more : List Request} {graph next last : Graph}

/-- Queued nodes of a wave are handed out, and nothing else is done. -/
structure HandsOut (wave : List NodeId) (requests : List Request) (graph next : Graph) : Prop where
  waits : ∀ id old, graph.node? id = some old → next.node? id = some old ∨
    id ∈ wave ∧ old.state = .queued ∧ next.node? id = some old.handOut
  absent : ∀ id, graph.node? id = none → next.node? id = none
  asked : ∀ request ∈ requests, request.id ∈ wave ∧ ∃ old, graph.node? request.id = some old ∧
    old.state = .queued ∧ request = old.ask request.id

theorem hands_out_refl (graph : Graph) (wave : List NodeId) : graph.HandsOut wave [] graph where
  waits := fun _ _ present => Or.inl present
  absent := fun _ absent => absent
  asked := by
    intro request member
    cases member

theorem HandsOut.trans (first : HandsOut wave requests graph next)
    (second : HandsOut rest more next last) :
    HandsOut (wave ++ rest) (requests ++ more) graph last where
  waits := by
    intro id old present
    rcases first.waits id old present with there | ⟨member, queued, handed⟩
    · rcases second.waits id old there with still | ⟨member, queued, handed⟩
      · exact Or.inl still
      · exact Or.inr ⟨List.mem_append_right wave member, queued, handed⟩
    · rcases second.waits id old.handOut handed with still | ⟨-, again, -⟩
      · exact Or.inr ⟨List.mem_append_left rest member, queued, still⟩
      · cases again
  absent := fun id absent => second.absent id (first.absent id absent)
  asked := by
    intro request member
    rcases List.mem_append.1 member with early | late
    · obtain ⟨inside, old, present, queued, same⟩ := first.asked request early
      exact ⟨List.mem_append_left rest inside, old, present, queued, same⟩
    · obtain ⟨inside, new, there, queued, same⟩ := second.asked request late
      refine ⟨List.mem_append_right wave inside, ?_⟩
      cases before : graph.node? request.id with
      | none =>
          rw [first.absent request.id before] at there
          cases there
      | some old =>
          rcases first.waits request.id old before with still | ⟨-, -, handed⟩
          · rw [there] at still
            cases still
            exact ⟨new, rfl, queued, same⟩
          · rw [there] at handed
            cases handed
            cases queued

/-- The answers that come in load their nodes; what happens to all others is that sources are
attached. -/
structure Folds (given : Bool → String → Prop) (landing : List NodeId) (graph next : Graph) :
    Prop where
  waits : ∀ id old, graph.node? id = some old → ∃ new, next.node? id = some new ∧
    (old.Awaits given new ∨ id ∈ landing ∧ new.state = .loaded ∧ new.path = old.path)
  comes : ∀ id new, next.node? id = some new → graph.node? id = none → new.Arrives given

theorem Widens.folds (widens : Widens given graph next) (landing : List NodeId) :
    Folds given landing graph next where
  waits := by
    intro id old present
    obtain ⟨new, there, awaits⟩ := widens.awaits id old present
    exact ⟨new, there, Or.inl awaits⟩
  comes := widens.comes

theorem Folds.trans (first : Folds given landing graph next) (second : Folds given later next last)
    (there : ∀ id ∈ later, ∃ node, graph.node? id = some node) :
    Folds given (landing ++ later) graph last where
  waits := by
    intro id old present
    obtain ⟨new, found, step⟩ := first.waits id old present
    obtain ⟨newer, shown, onward⟩ := second.waits id new found
    refine ⟨newer, shown, ?_⟩
    rcases onward with awaits | ⟨member, loaded, path⟩
    · rcases step with before | ⟨member, loaded, path⟩
      · exact Or.inl (before.trans awaits)
      · rw [awaits.eq_of_settled (by simp [Node.isPending, loaded])]
        exact Or.inr ⟨List.mem_append_left later member, loaded, path⟩
    · refine Or.inr ⟨List.mem_append_right landing member, loaded, path.trans ?_⟩
      rcases step with before | ⟨-, -, same⟩
      · exact before.path
      · exact same
  comes := by
    intro id newer shown absent
    cases between : next.node? id with
    | none => exact second.comes id newer shown between
    | some new =>
        obtain ⟨other, found, onward⟩ := second.waits id new between
        rw [shown] at found
        cases found
        rcases onward with awaits | ⟨member, -, -⟩
        · exact (first.comes id new between absent).await awaits
        · obtain ⟨node, present⟩ := there id member
          rw [absent] at present
          cases present

theorem folds_land (graph : Graph) (fetched : Fetched) :
    graph.Folds given [fetched.id] (graph.land fetched) where
  waits := by
    intro id old present
    by_cases same : id = fetched.id
    · refine ⟨{ old with content := fetched.content, state := .loaded }, ?_,
        Or.inr ⟨List.mem_singleton.2 same, rfl, rfl⟩⟩
      rw [same] at present ⊢
      rw [land, node_modify_self, present]
      rfl
    · refine ⟨old, ?_, Or.inl (Node.awaits_refl old)⟩
      rw [land, node_modify_of_ne graph _ same]
      exact present
  comes := by
    intro id new there absent
    rcases node_modify_cases there with ⟨-, before⟩ | ⟨rfl, old, before, -⟩
    · rw [before] at absent
      cases absent
    · rw [before] at absent
      cases absent

theorem Folds.equip {id : NodeId} {node : Node} (folds : Folds given landing graph next)
    (present : graph.node? id = some node) (member : id ∈ landing)
    (landed : ∀ node, next.node? id = some node → node.state = .loaded) (map : SourceMap)
    (lines : Mappings) (sources : List NodeId) :
    Folds given landing graph (next.equip id map lines sources) where
  waits := by
    intro other old before
    obtain ⟨new, there, step⟩ := folds.waits other old before
    by_cases same : other = id
    · rw [same] at there ⊢
      refine ⟨{ new with map := some map, mappings := some lines, sources := sources }, ?_,
        Or.inr ⟨member, landed new there, ?_⟩⟩
      · rw [Graph.equip, node_modify_self, there]
        rfl
      · rcases step with awaits | ⟨-, -, path⟩
        · exact awaits.path
        · exact path
    · refine ⟨new, ?_, step⟩
      rw [Graph.equip, node_modify_of_ne next _ same]
      exact there
  comes := by
    intro other new there absent
    rcases node_modify_cases there with ⟨-, before⟩ | ⟨rfl, -, -, -⟩
    · exact folds.comes other new before absent
    · rw [present] at absent
      cases absent

def Unseen (graph : Graph) (id : NodeId) : Prop :=
  ∀ node, graph.node? id = some node → node.state = .unvisited

theorem HandsOut.unseen {id : NodeId} (hands : HandsOut wave requests graph next)
    (unseen : next.Unseen id) : graph.Unseen id := by
  intro old present
  rcases hands.waits id old present with there | ⟨-, -, handed⟩
  · exact unseen old there
  · cases unseen old.handOut handed

theorem Folds.unseen {id : NodeId} (folds : Folds given landing graph next)
    (unseen : next.Unseen id) : graph.Unseen id := by
  intro old present
  obtain ⟨new, there, step⟩ := folds.waits id old present
  have unvisited := unseen new there
  rcases step with awaits | ⟨-, loaded, -⟩
  · by_contra visited
    rw [awaits.visited visited] at unvisited
    exact visited unvisited
  · rw [unvisited] at loaded
    cases loaded

end Graph

namespace Session

variable {given : Bool → String → Prop} {files : FileSystem} {directory : Path} {roots : List Path}
  {graph : Graph} {session : Session} {requests : List Request} {fetched : Fetched}

theorem hands_out_begin_fetch (session : Session) (id : NodeId) :
    session.graph.HandsOut [id] (session.beginFetch id).2.toList
      (session.beginFetch id).1.graph := by
  rcases begin_fetch_cases session id with ⟨idle, -⟩ | ⟨node, present, queued, handed⟩
  · rw [idle]
    exact Graph.hands_out_refl session.graph [id]
  · rw [handed]
    refine ⟨?_, ?_, ?_⟩
    · intro other old there
      by_cases same : other = id
      · rw [same, present] at there
        cases there
        refine Or.inr ⟨List.mem_singleton.2 same, queued, ?_⟩
        rw [same, Graph.node_modify_self, present]
        rfl
      · rw [Graph.node_modify_of_ne session.graph _ same]
        exact Or.inl there
    · intro other absent
      rw [Graph.node_modify_of_ne session.graph]
      · exact absent
      · intro same
        rw [same, present] at absent
        cases absent
    · intro request member
      rw [Option.toList_some, List.mem_singleton] at member
      rw [member]
      exact ⟨List.mem_singleton.2 rfl, node, present, queued, rfl⟩

theorem hands_out_begin_wave (session : Session) (wave : List NodeId) :
    session.graph.HandsOut wave (session.beginWave wave).2 (session.beginWave wave).1.graph := by
  induction wave generalizing session with
  | nil => exact Graph.hands_out_refl session.graph []
  | cons id wave induction =>
      exact (hands_out_begin_fetch session id).trans (induction (session.beginFetch id).1)

theorem folds_integrate (indexed : session.graph.Indexed)
    (carried : ∀ child ∈ fetched.children, ∀ text, child.content = some text →
      given child.path.isSome text) :
    Graph.Folds given [fetched.id] session.graph (session.integrate fetched).1.graph := by
  cases present : session.graph.node? fetched.id with
  | none =>
      simp only [integrate, present]
      exact (Graph.widens_refl session.graph).folds [fetched.id]
  | some node =>
      have landing : Graph.Folds given [fetched.id] session.graph (session.graph.land fetched) :=
        Graph.folds_land session.graph fetched
      rcases integrate_cases session present with
        ⟨-, same⟩ | ⟨map, fault, -, -, same⟩ | ⟨map, lines, -, -, same⟩
      · rw [same]
        exact landing
      · rw [same]
        exact landing
      · rw [same]
        have widens := widens_attach_children (indexed.land fetched) carried
        have folds := landing.trans (widens.folds []) (by simp)
        rw [List.append_nil] at folds
        apply folds.equip present (List.mem_singleton.2 rfl)
        intro new there
        have landed : (session.graph.land fetched).node? fetched.id =
            some { node with content := fetched.content, state := .loaded } := by
          rw [Graph.land, Graph.node_modify_self, present]
          rfl
        obtain ⟨other, shown, awaits⟩ := widens.awaits fetched.id _ landed
        rw [there] at shown
        cases shown
        rw [awaits.eq_of_settled rfl]

theorem folds_integrate_all (indexed : session.graph.Indexed)
    (there : ∀ request ∈ requests, ∃ node, session.graph.node? request.id = some node)
    (carried : ∀ request ∈ requests, ∀ fetched, request.fetch files directory roots = .ok fetched →
      ∀ child ∈ fetched.children, ∀ text, child.content = some text →
        given child.path.isSome text) :
    Graph.Folds given (requests.map (·.id)) session.graph
      (session.integrateAll (requests.map (·.fetch files directory roots))).1.graph := by
  induction requests generalizing session with
  | nil => exact (Graph.widens_refl session.graph).folds []
  | cons request requests induction =>
      rw [List.forall_mem_cons] at there carried
      have idle : Graph.Folds given (request.id :: requests.map (·.id)) session.graph
          session.graph := (Graph.widens_refl session.graph).folds _
      simp only [List.map_cons]
      cases answered : request.fetch files directory roots with
      | error fault => exact idle
      | ok fetched =>
          obtain ⟨target, -, -⟩ := Request.of_fetch answered
          have folded := folds_integrate indexed (carried.1 fetched answered)
          have still := indexed_integrate indexed fetched
          rw [target] at folded
          have onward (id : NodeId) (node : Node) (present : session.graph.node? id = some node) :
              ∃ new, (session.integrate fetched).1.graph.node? id = some new := by
            obtain ⟨new, found, -⟩ := folded.waits id node present
            exact ⟨new, found⟩
          simp only [integrateAll]
          generalize session.integrate fetched = integrated at folded still onward ⊢
          obtain ⟨next, fault | pending⟩ := integrated
          · have halted := folded.trans ((Graph.widens_refl next.graph).folds (requests.map (·.id)))
            apply halted
            intro id member
            obtain ⟨other, inside, rfl⟩ := List.mem_map.1 member
            exact there.2 other inside
          · refine folded.trans (induction still ?_ carried.2) ?_
            · intro other inside
              obtain ⟨node, present⟩ := there.2 other inside
              exact onward other.id node present
            · intro id member
              obtain ⟨other, inside, rfl⟩ := List.mem_map.1 member
              exact there.2 other inside

theorem widens_freely (indexed : graph.Indexed) (children : List Child) :
    Graph.Widens (fun _ _ => True) graph (attachChildren graph children).1 :=
  widens_attach_children indexed fun _ _ _ _ => trivial

theorem unseen_attach_child (indexed : graph.Indexed) (child : Child)
    (queued : (attachChild graph child).2.2 = true) :
    graph.Unseen (attachChild graph child).2.1 := by
  intro old present
  obtain ⟨node, shown, ⟨unvisited, same⟩ | ⟨-, same⟩⟩ := attach_child_cases indexed child
  · rw [same] at present
    rcases Graph.node_of_attach_freely indexed shown with ⟨other, before, -, state⟩ | ⟨absent, -⟩
    · rw [present] at before
      cases before
      exact state.symm.trans unvisited
    · rw [present] at absent
      cases absent
  · rw [same] at queued
    cases queued

/-- Only nodes that nothing has asked for are given out to be loaded. -/
theorem unseen_attach_children (indexed : graph.Indexed) (children : List Child) {id : NodeId}
    (pending : id ∈ (attachChildren graph children).2.2) : graph.Unseen id := by
  induction children generalizing graph with
  | nil => cases pending
  | cons child children induction =>
      have later (member : id ∈ (attachChildren (attachChild graph child).1 children).2.2) :
          graph.Unseen id :=
        ((widens_freely indexed [child]).folds []).unseen
          (induction (indexed_attach_child indexed child) member)
      simp only [attachChildren] at pending
      cases fresh : (attachChild graph child).2.2 with
      | false =>
          rw [fresh, if_neg Bool.false_ne_true] at pending
          exact later pending
      | true =>
          rw [fresh, if_pos rfl] at pending
          rcases List.mem_cons.1 pending with here | member
          · rw [here]
            exact unseen_attach_child indexed child fresh
          · exact later member

theorem unseen_integrate {pending : List NodeId} (indexed : session.graph.Indexed)
    (folded : (session.integrate fetched).2 = .ok pending) {id : NodeId} (member : id ∈ pending) :
    session.graph.Unseen id := by
  cases present : session.graph.node? fetched.id with
  | none =>
      simp only [integrate, present] at folded
      cases folded
      cases member
  | some node =>
      rcases integrate_cases session present with
        ⟨-, same⟩ | ⟨map, fault, -, -, same⟩ | ⟨map, lines, -, -, same⟩
      · rw [same] at folded
        cases folded
        cases member
      · rw [same] at folded
        cases folded
      · rw [same] at folded
        cases folded
        have landing : Graph.Folds (fun _ _ => True) [fetched.id] session.graph
            (session.graph.land fetched) := Graph.folds_land session.graph fetched
        exact landing.unseen (unseen_attach_children (indexed.land fetched) fetched.children member)

theorem unseen_integrate_all {results : List (Except Fault Fetched)} {pending : List NodeId}
    (indexed : session.graph.Indexed)
    (completed : (session.integrateAll results).2 = .ok pending) {id : NodeId}
    (member : id ∈ pending) : session.graph.Unseen id := by
  induction results generalizing session pending with
  | nil =>
      cases completed
      cases member
  | cons result results induction =>
      cases result with
      | error fault => cases completed
      | ok fetched =>
          have fresh (first : List NodeId) (ended : (session.integrate fetched).2 = .ok first)
              (inside : id ∈ first) := unseen_integrate indexed ended inside
          have folds : Graph.Folds (fun _ _ => True) [fetched.id] session.graph
              (session.integrate fetched).1.graph :=
            folds_integrate indexed fun _ _ _ _ => trivial
          have still := indexed_integrate indexed fetched
          simp only [integrateAll] at completed
          generalize session.integrate fetched = integrated at fresh folds still completed
          obtain ⟨next, fault | first⟩ := integrated
          · cases completed
          · obtain ⟨last, ended, rfl⟩ := of_collect completed
            rcases List.mem_append.1 member with early | late
            · exact fresh first rfl early
            · exact folds.unseen (induction still ended late)

end Session

end MapChain
