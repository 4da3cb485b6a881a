import MapChain.Proofs.Session.Flight
import Mathlib.Data.List.Forall2

/-!
Attaching the sources of a map, one after the other. Main statements: each source gets a node that
plays its part, and the nodes that are queued by it are those that are given out to be loaded.
-/

set_option autoImplicit false

namespace MapChain

/-- Where the nodes are whose loading has begun and not ended. -/
structure Graph.Tidy (graph : Graph) (queue flight : List NodeId) : Prop where
  queued : ∀ id node, graph.node? id = some node → node.state = .queued → id ∈ queue
  fetching : ∀ id node, graph.node? id = some node → node.state = .fetching → id ∈ flight

theorem Node.persists_queue {node : Node} (unvisited : node.state = .unvisited) :
    node.Persists { node with state := .queued } := by
  refine ⟨rfl, rfl, ?_, ?_, ?_, ?_, fun _ => rfl⟩
  · intro loaded
    rw [unvisited] at loaded
    cases loaded
  · intro fetching
    rw [unvisited] at fetching
    cases fetching
  · simp [isPending, unvisited]
  · intro visited
    exact absurd unvisited visited

namespace Graph

variable {graph : Graph} {queue flight : List NodeId}

def inState (graph : Graph) (state : LoadState) : List NodeId :=
  (List.range graph.size).filter fun id => (graph.node? id).any (·.state = state)

theorem mem_in_state {id : NodeId} {state : LoadState} :
    id ∈ graph.inState state ↔ ∃ node, graph.node? id = some node ∧ node.state = state := by
  rw [inState, List.mem_filter, List.mem_range, Option.any_eq_true]
  constructor
  · rintro ⟨-, node, present, stage⟩
    exact ⟨node, present, of_decide_eq_true stage⟩
  · rintro ⟨node, present, stage⟩
    exact ⟨lt_size_of_node present, node, present, decide_eq_true stage⟩

theorem tidy_in_state (graph : Graph) :
    graph.Tidy (graph.inState .queued) (graph.inState .fetching) where
  queued := fun _ node present queued => mem_in_state.2 ⟨node, present, queued⟩
  fetching := fun _ node present fetching => mem_in_state.2 ⟨node, present, fetching⟩

theorem Tidy.mono {more longer : List NodeId} (tidy : graph.Tidy queue flight)
    (fewer : queue ⊆ more) (shorter : flight ⊆ longer) : graph.Tidy more longer where
  queued := fun id node present queued => fewer (tidy.queued id node present queued)
  fetching := fun id node present fetching => shorter (tidy.fetching id node present fetching)

theorem tidy_modify {id : NodeId} {change : Node → Node} (tidy : graph.Tidy queue flight)
    (kept : ∀ node, (change node).state = node.state) :
    (graph.modify id change).Tidy queue flight := by
  have before (other : NodeId) (new : Node)
      (present : (graph.modify id change).node? other = some new) :
      ∃ old, graph.node? other = some old ∧ new.state = old.state := by
    rcases node_modify_cases present with ⟨-, old⟩ | ⟨rfl, old, shown, rfl⟩
    · exact ⟨new, old, rfl⟩
    · exact ⟨old, shown, kept old⟩
  constructor
  · intro other new present queued
    obtain ⟨old, shown, same⟩ := before other new present
    exact tidy.queued other old shown (same.symm.trans queued)
  · intro other new present fetching
    obtain ⟨old, shown, same⟩ := before other new present
    exact tidy.fetching other old shown (same.symm.trans fetching)

theorem tidy_push {node : Node} (tidy : graph.Tidy queue flight)
    (unvisited : node.state = .unvisited) : (graph.push node).Tidy queue flight := by
  constructor
  · intro id new present queued
    rcases node_push_cases present with ⟨-, rfl⟩ | before
    · rw [unvisited] at queued
      cases queued
    · exact tidy.queued id new before queued
  · intro id new present fetching
    rcases node_push_cases present with ⟨-, rfl⟩ | before
    · rw [unvisited] at fetching
      cases fetching
    · exact tidy.fetching id new before fetching

theorem tidy_enter (tidy : graph.Tidy queue flight) (path : Path) (id : NodeId) :
    (graph.enter path id).Tidy queue flight := ⟨tidy.queued, tidy.fetching⟩

theorem tidy_attach (tidy : graph.Tidy queue flight) (path : Option Path)
    (content : Option String) : (graph.attach path content).1.Tidy queue flight := by
  have ways := attached graph path content
  generalize graph.attach path content = result at ways ⊢
  cases ways with
  | nameless => exact tidy_push tidy rfl
  | added absent => exact tidy_enter (tidy_push tidy rfl) _ _
  | known found =>
      apply tidy_modify tidy
      intro node
      exact node.state_offer content

theorem tidy_queue {id : NodeId} (tidy : graph.Tidy queue flight) :
    (graph.modify id fun node => { node with state := .queued }).Tidy (id :: queue) flight := by
  constructor
  · intro other new present queued
    rcases node_modify_cases present with ⟨-, old⟩ | ⟨rfl, -⟩
    · exact List.mem_cons_of_mem id (tidy.queued other new old queued)
    · exact List.mem_cons_self
  · intro other new present fetching
    rcases node_modify_cases present with ⟨-, old⟩ | ⟨-, old, -, rfl⟩
    · exact tidy.fetching other new old fetching
    · cases fetching

theorem grows_queue {id : NodeId} {node : Node} (present : graph.node? id = some node)
    (unvisited : node.state = .unvisited) :
    graph.Grows (graph.modify id fun node => { node with state := .queued }) := by
  apply grows_modify
  intro old there
  rw [present] at there
  cases there
  exact Node.persists_queue unvisited

end Graph

namespace Session

variable {graph : Graph} {queue flight : List NodeId}

/-- The two ways in which a source is attached: its node is queued, or has been visited before. -/
theorem attach_child_cases (indexed : graph.Indexed) (child : Child) :
    ∃ node, (graph.attach child.path child.content).1.node?
        (graph.attach child.path child.content).2 = some node ∧
      ((node.state = .unvisited ∧ attachChild graph child =
          ((graph.attach child.path child.content).1.modify
              (graph.attach child.path child.content).2 fun node => { node with state := .queued },
            (graph.attach child.path child.content).2, true)) ∨
        (node.state ≠ .unvisited ∧ attachChild graph child =
          ((graph.attach child.path child.content).1,
            (graph.attach child.path child.content).2, false))) := by
  obtain ⟨node, present, -⟩ := Graph.node_attach indexed child.path child.content
  refine ⟨node, present, ?_⟩
  by_cases unvisited : node.state = .unvisited
  · exact Or.inl ⟨unvisited, by simp [attachChild, present, unvisited]⟩
  · exact Or.inr ⟨unvisited, by simp [attachChild, present, unvisited]⟩

theorem grows_attach_child (indexed : graph.Indexed) (child : Child) :
    graph.Grows (attachChild graph child).1 := by
  have attaching := Graph.grows_attach indexed child.path child.content
  obtain ⟨node, present, ⟨unvisited, same⟩ | ⟨-, same⟩⟩ := attach_child_cases indexed child
  · rw [same]
    exact attaching.trans (Graph.grows_queue present unvisited)
  · rw [same]
    exact attaching

theorem indexed_attach_child (indexed : graph.Indexed) (child : Child) :
    (attachChild graph child).1.Indexed := by
  have attaching := Graph.indexed_attach indexed child.path child.content
  obtain ⟨node, -, ⟨-, same⟩ | ⟨-, same⟩⟩ := attach_child_cases indexed child
  · rw [same]
    exact Graph.indexed_modify attaching fun _ => rfl
  · rw [same]
    exact attaching

theorem plays_attach_child (indexed : graph.Indexed) (child : Child) (flight : List Request) :
    (attachChild graph child).1.Plays flight child (attachChild graph child).2.1 := by
  obtain ⟨node, present, nameless, named⟩ := Graph.node_attach indexed child.path child.content
  have fits (new : Node) (path : new.path = node.path) (content : new.content = node.content)
      (settled : node.path = none → new.state ≠ .fetching) :
      new.Fits flight (graph.attach child.path child.content).2 child := by
    cases shown : child.path with
    | none =>
        have fresh := nameless shown
        have bare : node.path = none := by rw [fresh]; rfl
        rw [Node.fits_nameless shown]
        refine ⟨path.trans bare, fun fetching => absurd fetching (settled bare), fun _ => ?_⟩
        rw [content, fresh]
        rfl
    | some own =>
        have there := named own shown
        rw [Node.fits_named shown]
        unfold Node.isAt at there ⊢
        rwa [path]
  obtain ⟨same, found, ways⟩ := attach_child_cases indexed child
  rw [present] at found
  cases found
  rcases ways with ⟨-, same⟩ | ⟨visited, same⟩
  · rw [same]
    refine ⟨{ node with state := .queued }, ?_, by simp, fits _ rfl rfl (by simp)⟩
    rw [Graph.node_modify_self, present]
    rfl
  · rw [same]
    refine ⟨node, present, visited, fits node rfl rfl ?_⟩
    intro bare fetching
    cases shown : child.path with
    | none =>
        rw [nameless shown] at visited
        exact visited rfl
    | some own =>
        have there := named own shown
        simp [Node.isAt, bare] at there

theorem tidy_attach_child (indexed : graph.Indexed) (tidy : graph.Tidy queue flight)
    (child : Child) :
    (attachChild graph child).1.Tidy
      (if (attachChild graph child).2.2 then (attachChild graph child).2.1 :: queue else queue)
      flight := by
  have attaching := Graph.tidy_attach tidy child.path child.content
  obtain ⟨node, -, ⟨-, same⟩ | ⟨-, same⟩⟩ := attach_child_cases indexed child
  · rw [same]
    exact Graph.tidy_queue attaching
  · rw [same]
    exact attaching

theorem grows_attach_children (indexed : graph.Indexed) (children : List Child) :
    graph.Grows (attachChildren graph children).1 := by
  induction children generalizing graph with
  | nil => exact Graph.grows_refl graph
  | cons child children induction =>
      exact (grows_attach_child indexed child).trans
        (induction (indexed_attach_child indexed child))

theorem indexed_attach_children (indexed : graph.Indexed) (children : List Child) :
    (attachChildren graph children).1.Indexed := by
  induction children generalizing graph with
  | nil => exact indexed
  | cons child children induction => exact induction (indexed_attach_child indexed child)

theorem plays_attach_children (indexed : graph.Indexed) (children : List Child)
    (flight : List Request) :
    List.Forall₂ ((attachChildren graph children).1.Plays flight) children
      (attachChildren graph children).2.1 := by
  induction children generalizing graph with
  | nil => exact .nil
  | cons child children induction =>
      have still := indexed_attach_child indexed child
      have later := grows_attach_children still children
      have first := (plays_attach_child indexed child flight).advance (later.advances flight)
      exact .cons first (induction still)

theorem tidy_attach_children (indexed : graph.Indexed) (tidy : graph.Tidy queue flight)
    (children : List Child) :
    (attachChildren graph children).1.Tidy (queue ++ (attachChildren graph children).2.2)
      flight := by
  induction children generalizing graph queue with
  | nil => exact tidy.mono (List.subset_append_left queue []) (List.Subset.refl flight)
  | cons child children induction =>
      have rest := induction (indexed_attach_child indexed child)
        (tidy_attach_child indexed tidy child)
      refine rest.mono ?_ (List.Subset.refl flight)
      intro id member
      simp only [attachChildren]
      cases fresh : (attachChild graph child).2.2
      · simp only [fresh] at member
        simpa using member
      · simp only [fresh, if_true, List.cons_append, List.mem_cons, List.mem_append] at member ⊢
        rcases member with here | before | after
        · exact Or.inr (Or.inl here)
        · exact Or.inl before
        · exact Or.inr (Or.inr after)

end Session

end MapChain
