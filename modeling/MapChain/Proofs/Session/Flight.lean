import MapChain.Proofs.Graph.Growth
import MapChain.Session.Load

/-!
Nodes whose content has been handed out to a fetch. Main statements: the content that a map
carries for a source is never lost on its way through a fetch, and attaching the sources of a map
gives each of them a node that plays its part.
-/

set_option autoImplicit false

namespace MapChain

/-- The content that a node without a path came with, wherever it is right now. -/
structure Node.Bears (flight : List Request) (id : NodeId) (content : Option String)
    (node : Node) : Prop where
  nameless : node.path = none
  handed : node.state = .fetching → ∀ request ∈ flight, request.id = id → request.content = content
  kept : node.state ≠ .fetching → node.content = content

def Node.Fits (flight : List Request) (id : NodeId) (child : Child) (node : Node) : Prop :=
  match child.path with
  | none => node.Bears flight id child.content
  | some path => node.isAt path = true

/-- What may happen to a node while the requests in flight change. -/
structure Node.Advances (flight landing : List Request) (id : NodeId) (old new : Node) : Prop where
  path : new.path = old.path
  loaded : old.state = .loaded → new = old
  visited : old.state ≠ .unvisited → new.state ≠ .unvisited
  bears : ∀ content, old.Bears flight id content → new.Bears landing id content

namespace Node

variable {flight landing : List Request} {id : NodeId} {old new : Node}

theorem Bears.land {content : Option String} (bears : old.Bears flight id content)
    (fewer : landing ⊆ flight) : old.Bears landing id content where
  nameless := bears.nameless
  handed := fun fetching request member => bears.handed fetching request (fewer member)
  kept := bears.kept

theorem fits_nameless {child : Child} (nameless : child.path = none) :
    old.Fits flight id child ↔ old.Bears flight id child.content := by
  unfold Fits
  rw [nameless]

theorem fits_named {child : Child} {path : Path} (named : child.path = some path) :
    old.Fits flight id child ↔ old.isAt path = true := by
  unfold Fits
  rw [named]

theorem Fits.advance {child : Child} (fits : old.Fits flight id child)
    (step : old.Advances flight landing id new) : new.Fits landing id child := by
  cases named : child.path with
  | none =>
      rw [fits_nameless named] at fits ⊢
      exact step.bears child.content fits
  | some path =>
      rw [fits_named named] at fits ⊢
      unfold isAt at fits ⊢
      rwa [step.path]

theorem Advances.trans {last : List Request} {newer : Node}
    (first : old.Advances flight landing id new) (second : new.Advances landing last id newer) :
    old.Advances flight last id newer where
  path := second.path.trans first.path
  loaded := by
    intro loaded
    have same := first.loaded loaded
    rw [← same] at loaded
    exact (second.loaded loaded).trans same
  visited := fun visited => second.visited (first.visited visited)
  bears := fun content bears => second.bears content (first.bears content bears)

theorem Persists.advances (persists : old.Persists new) (flight : List Request) (id : NodeId) :
    old.Advances flight flight id new where
  path := persists.path
  loaded := persists.loaded
  visited := persists.visited
  bears := by
    intro content bears
    refine ⟨persists.path.trans bears.nameless, ?_, ?_⟩
    · intro fetching
      apply bears.handed
      have settled : old.isPending = false := by
        rw [← persists.pending]
        simp [isPending, fetching]
      rcases is_pending_eq_false_iff.1 settled with before | loaded
      · exact before
      · rw [persists.loaded loaded, loaded] at fetching
        cases fetching
    · intro settled
      rw [persists.nameless bears.nameless]
      apply bears.kept
      intro fetching
      exact settled (persists.fetching fetching).1

end Node

namespace Graph

variable {flight landing : List Request} {graph later : Graph}

def Advances (flight landing : List Request) (graph later : Graph) : Prop :=
  ∀ id old, graph.node? id = some old →
    ∃ new, later.node? id = some new ∧ old.Advances flight landing id new

theorem Advances.trans {last : List Request} {latest : Graph}
    (first : Advances flight landing graph later) (second : Advances landing last later latest) :
    Advances flight last graph latest := by
  intro id old present
  obtain ⟨new, there, step⟩ := first id old present
  obtain ⟨newer, found, next⟩ := second id new there
  exact ⟨newer, found, step.trans next⟩

theorem Grows.advances (grows : graph.Grows later) (flight : List Request) :
    Advances flight flight graph later := by
  intro id old present
  obtain ⟨new, there, persists⟩ := grows.persists id old present
  exact ⟨new, there, persists.advances flight id⟩

theorem advances_modify {id : NodeId} {change : Node → Node}
    (here : ∀ old, graph.node? id = some old → old.Advances flight landing id (change old))
    (elsewhere : ∀ other old, other ≠ id → graph.node? other = some old →
      old.Advances flight landing other old) :
    Advances flight landing graph (graph.modify id change) := by
  intro other old present
  by_cases same : other = id
  · rw [same] at present ⊢
    refine ⟨change old, ?_, here old present⟩
    rw [node_modify_self, present]
    rfl
  · refine ⟨old, ?_, elsewhere other old same present⟩
    rw [node_modify_of_ne graph change same]
    exact present

/-- A request that is given up is never answered. -/
theorem advances_land (graph : Graph) (fewer : landing ⊆ flight) :
    Advances flight landing graph graph := by
  intro id old present
  exact ⟨old, present, rfl, fun _ => rfl, fun visited => visited, fun _ bears => bears.land fewer⟩

def Plays (graph : Graph) (flight : List Request) (child : Child) (id : NodeId) : Prop :=
  ∃ node, graph.node? id = some node ∧ node.state ≠ .unvisited ∧ node.Fits flight id child

theorem Plays.advance {child : Child} {id : NodeId} (plays : graph.Plays flight child id)
    (advances : Advances flight landing graph later) : later.Plays landing child id := by
  obtain ⟨old, present, visited, fits⟩ := plays
  obtain ⟨new, there, step⟩ := advances id old present
  exact ⟨new, there, step.visited visited, fits.advance step⟩

/-- Every request is for a node that waits for it, and no node waits for two. -/
structure Flying (graph : Graph) (flight : List Request) : Prop where
  once : (flight.map (·.id)).Nodup
  waits : ∀ request ∈ flight, ∃ node, graph.node? request.id = some node ∧
    node.state = .fetching ∧ node.path = request.path ∧ node.map = none

theorem flying_nil (graph : Graph) : graph.Flying [] := ⟨List.nodup_nil, by simp⟩

theorem Flying.grow (flying : graph.Flying flight) (grows : graph.Grows later) :
    later.Flying flight where
  once := flying.once
  waits := by
    intro request member
    obtain ⟨old, present, fetching, path, bare⟩ := flying.waits request member
    obtain ⟨new, there, persists⟩ := grows.persists request.id old present
    obtain ⟨still, map⟩ := persists.fetching fetching
    exact ⟨new, there, still, persists.path.trans path, map.trans bare⟩

theorem node_attach (indexed : graph.Indexed) (path : Option Path) (content : Option String) :
    ∃ node, (graph.attach path content).1.node? (graph.attach path content).2 = some node ∧
      (path = none → node = .fresh none content) ∧
      ∀ own, path = some own → node.isAt own = true := by
  have ways := attached graph path content
  generalize graph.attach path content = result at ways ⊢
  cases ways with
  | nameless => exact ⟨.fresh none content, node_push_size graph _, fun _ => rfl, by simp⟩
  | added absent =>
      refine ⟨.fresh (some _) content, node_push_size graph _, by simp, ?_⟩
      intro own same
      cases same
      exact Node.is_at_fresh _ content
  | @known path id found =>
      obtain ⟨node, present, there⟩ := (indexed path id).1 found
      refine ⟨node.offer content, ?_, by simp, ?_⟩
      · rw [node_modify_self, present]
        rfl
      · intro own same
        cases same
        rw [Node.is_at_offer]
        exact there

end Graph

end MapChain
