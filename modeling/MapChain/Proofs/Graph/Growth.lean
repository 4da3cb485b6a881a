import MapChain.Proofs.Graph.Update

/-!
How a graph may change around the nodes that are being loaded. Main statements: attaching only
lets a graph grow, and keeps its index true: the node that is noted down for a path is the one node
that has this path.
-/

set_option autoImplicit false

namespace MapChain

/-- What may happen to a node other than the next step of its own loading. -/
structure Node.Persists (old new : Node) : Prop where
  path : new.path = old.path
  sources : new.sources = old.sources
  loaded : old.state = .loaded → new = old
  fetching : old.state = .fetching → new.state = .fetching ∧ new.map = old.map
  pending : new.isPending = old.isPending
  visited : old.state ≠ .unvisited → new.state ≠ .unvisited
  /-- Content without a path is offered once and for all. -/
  nameless : old.path = none → new.content = old.content

namespace Node

variable {old new : Node}

theorem is_pending_eq_false_iff :
    old.isPending = false ↔ old.state = .fetching ∨ old.state = .loaded := by
  cases stage : old.state <;> simp [isPending, stage]

theorem persists_refl (node : Node) : node.Persists node where
  path := rfl
  sources := rfl
  loaded := fun _ => rfl
  fetching := fun fetching => ⟨fetching, rfl⟩
  pending := rfl
  visited := id
  nameless := fun _ => rfl

theorem Persists.trans {newer : Node} (first : old.Persists new) (second : new.Persists newer) :
    old.Persists newer where
  path := second.path.trans first.path
  sources := second.sources.trans first.sources
  loaded := by
    intro loaded
    have same := first.loaded loaded
    rw [← same] at loaded
    exact (second.loaded loaded).trans same
  fetching := by
    intro fetching
    obtain ⟨still, map⟩ := first.fetching fetching
    obtain ⟨last, kept⟩ := second.fetching still
    exact ⟨last, kept.trans map⟩
  pending := second.pending.trans first.pending
  visited := fun visited => second.visited (first.visited visited)
  nameless := by
    intro nameless
    have still : new.path = none := first.path.trans nameless
    exact (second.nameless still).trans (first.nameless nameless)

/-- A node that is loaded in the end has been loaded before, and is the same. -/
theorem Persists.eq_of_loaded (persists : old.Persists new) (loaded : new.state = .loaded) :
    new = old := by
  have settled : old.isPending = false := by
    rw [← persists.pending]
    simp [isPending, loaded]
  rcases is_pending_eq_false_iff.1 settled with fetching | before
  · have still := (persists.fetching fetching).1
    rw [loaded] at still
    cases still
  · exact persists.loaded before

theorem offer_eq (node : Node) (content : Option String) :
    node.offer content = node ∨
      node.isPending = true ∧ node.offer content = { node with content := content } := by
  unfold offer
  split
  next vacant => exact Or.inr ⟨(Bool.and_eq_true_iff.1 vacant).1, rfl⟩
  next => exact Or.inl rfl

@[simp]
theorem state_offer (node : Node) (content : Option String) :
    (node.offer content).state = node.state := by
  rcases offer_eq node content with same | ⟨-, taken⟩
  · rw [same]
  · rw [taken]

theorem persists_offer {path : Path} (there : old.isAt path = true) (content : Option String) :
    old.Persists (old.offer content) := by
  rcases offer_eq old content with same | ⟨pending, taken⟩
  · rw [same]
    exact persists_refl old
  · rw [taken]
    refine ⟨rfl, rfl, ?_, fun fetching => ⟨fetching, rfl⟩, rfl, id, ?_⟩
    · intro loaded
      simp [isPending, loaded] at pending
    · intro nameless
      simp [isAt, nameless] at there

end Node

namespace Graph

variable {graph later : Graph} {id : NodeId}

/-- Nodes persist, and new ones are still to be loaded. -/
structure Grows (graph later : Graph) : Prop where
  persists : ∀ id old, graph.node? id = some old →
    ∃ new, later.node? id = some new ∧ old.Persists new
  arrives : ∀ id new, later.node? id = some new → graph.node? id = none →
    new.isPending = true ∧ new.sources = []

theorem grows_refl (graph : Graph) : graph.Grows graph where
  persists := fun _ old present => ⟨old, present, Node.persists_refl old⟩
  arrives := by
    intro id new present absent
    rw [present] at absent
    cases absent

theorem Grows.trans {latest : Graph} (first : graph.Grows later) (second : later.Grows latest) :
    graph.Grows latest where
  persists := by
    intro id old present
    obtain ⟨new, there, step⟩ := first.persists id old present
    obtain ⟨newer, last, next⟩ := second.persists id new there
    exact ⟨newer, last, step.trans next⟩
  arrives := by
    intro id new present absent
    cases between : later.node? id with
    | none => exact second.arrives id new present between
    | some node =>
        obtain ⟨pending, bare⟩ := first.arrives id node between absent
        obtain ⟨other, there, persists⟩ := second.persists id node between
        rw [present] at there
        cases there
        exact ⟨persists.pending.trans pending, persists.sources.trans bare⟩

theorem Grows.of_loaded {node : Node} (grows : graph.Grows later)
    (present : later.node? id = some node) (loaded : node.state = .loaded) :
    graph.node? id = some node := by
  cases before : graph.node? id with
  | none =>
      obtain ⟨pending, -⟩ := grows.arrives id node present before
      simp [Node.isPending, loaded] at pending
  | some old =>
      obtain ⟨new, there, persists⟩ := grows.persists id old before
      rw [present] at there
      cases there
      rw [persists.eq_of_loaded loaded]

theorem grows_modify {change : Node → Node}
    (persists : ∀ old, graph.node? id = some old → old.Persists (change old)) :
    graph.Grows (graph.modify id change) where
  persists := by
    intro other old present
    by_cases same : other = id
    · subst same
      refine ⟨change old, ?_, persists old present⟩
      rw [node_modify_self, present]
      rfl
    · rw [node_modify_of_ne graph change same]
      exact ⟨old, present, Node.persists_refl old⟩
  arrives := by
    intro other new present absent
    rcases node_modify_cases present with ⟨-, before⟩ | ⟨rfl, old, before, -⟩
    · rw [before] at absent
      cases absent
    · rw [before] at absent
      cases absent

theorem grows_push {node : Node} (pending : node.isPending = true) (bare : node.sources = []) :
    graph.Grows (graph.push node) where
  persists := by
    intro other old present
    rw [node_push_of_ne graph node (Nat.ne_of_lt (lt_size_of_node present))]
    exact ⟨old, present, Node.persists_refl old⟩
  arrives := by
    intro other new present absent
    rcases node_push_cases present with ⟨-, rfl⟩ | before
    · exact ⟨pending, bare⟩
    · rw [before] at absent
      cases absent

theorem grows_enter (graph : Graph) (path : Path) (id : NodeId) :
    graph.Grows (graph.enter path id) where
  persists := (grows_refl graph).persists
  arrives := (grows_refl graph).arrives

/-- The index says where the node of a path is, and of which paths there is a node. -/
def Indexed (graph : Graph) : Prop :=
  ∀ path id, graph.lookup path = some id ↔
    ∃ node, graph.node? id = some node ∧ node.isAt path = true

theorem Indexed.absent {path : Path} (indexed : graph.Indexed) (absent : graph.lookup path = none)
    {node : Node} (present : graph.node? id = some node) : node.isAt path = false := by
  cases there : node.isAt path with
  | false => rfl
  | true =>
      have found := (indexed path id).2 ⟨node, present, there⟩
      rw [absent] at found
      cases found

theorem Indexed.unique {path : Path} {other : NodeId} {first second : Node}
    (indexed : graph.Indexed) (shown : graph.node? id = some first)
    (present : graph.node? other = some second) (here : first.isAt path = true)
    (there : second.isAt path = true) : id = other := by
  have found := (indexed path id).2 ⟨first, shown, here⟩
  rw [(indexed path other).2 ⟨second, present, there⟩] at found
  cases found
  rfl

theorem indexed_empty : empty.Indexed := by
  intro path id
  constructor
  · intro found
    cases found
  · rintro ⟨node, present, -⟩
    simp [empty, node?] at present

theorem indexed_modify {change : Node → Node} (indexed : graph.Indexed)
    (kept : ∀ node, (change node).path = node.path) : (graph.modify id change).Indexed := by
  intro path other
  rw [lookup_modify, indexed path other]
  have still (node : Node) : (change node).isAt path = node.isAt path := by
    unfold Node.isAt
    rw [kept]
  by_cases same : other = id
  · rw [same, node_modify_self]
    constructor
    · rintro ⟨node, present, there⟩
      refine ⟨change node, ?_, (still node).trans there⟩
      rw [present]
      rfl
    · rintro ⟨new, present, there⟩
      obtain ⟨node, shown, rfl⟩ := Option.map_eq_some_iff.1 present
      exact ⟨node, shown, (still node).symm.trans there⟩
  · rw [node_modify_of_ne graph change same]

theorem indexed_push_nameless {content : Option String} (indexed : graph.Indexed) :
    (graph.push (.fresh none content)).Indexed := by
  intro path other
  rw [lookup_push, indexed path other]
  constructor
  · rintro ⟨node, present, there⟩
    refine ⟨node, ?_, there⟩
    rw [node_push_of_ne graph _ (Nat.ne_of_lt (lt_size_of_node present))]
    exact present
  · rintro ⟨node, present, there⟩
    rcases node_push_cases present with ⟨-, rfl⟩ | before
    · cases there
    · exact ⟨node, before, there⟩

theorem indexed_push_named {path : Path} {content : Option String} (indexed : graph.Indexed)
    (absent : graph.lookup path = none) :
    ((graph.push (.fresh (some path) content)).enter path graph.size).Indexed := by
  intro spelling other
  rw [lookup_enter, lookup_push, node_enter]
  by_cases same : Path.Same path spelling
  · rw [if_pos same]
    constructor
    · intro last
      cases last
      exact ⟨_, node_push_size graph _, decide_eq_true same⟩
    · rintro ⟨node, present, there⟩
      rcases node_push_cases present with ⟨rfl, -⟩ | before
      · rfl
      · rw [← Node.is_at_congr same, indexed.absent absent before] at there
        cases there
  · rw [if_neg same, indexed spelling other]
    constructor
    · rintro ⟨node, present, there⟩
      refine ⟨node, ?_, there⟩
      rw [node_push_of_ne graph _ (Nat.ne_of_lt (lt_size_of_node present))]
      exact present
    · rintro ⟨node, present, there⟩
      rcases node_push_cases present with ⟨-, rfl⟩ | before
      · exact absurd (of_decide_eq_true there) same
      · exact ⟨node, before, there⟩

theorem indexed_attach (indexed : graph.Indexed) (path : Option Path) (content : Option String) :
    (graph.attach path content).1.Indexed := by
  have ways := attached graph path content
  generalize graph.attach path content = result at ways ⊢
  cases ways with
  | nameless => exact indexed_push_nameless indexed
  | added absent => exact indexed_push_named indexed absent
  | known found =>
      apply indexed_modify indexed
      intro node
      rcases node.offer_eq content with same | ⟨-, taken⟩
      · rw [same]
      · rw [taken]

theorem grows_attach (indexed : graph.Indexed) (path : Option Path) (content : Option String) :
    graph.Grows (graph.attach path content).1 := by
  have ways := attached graph path content
  generalize graph.attach path content = result at ways ⊢
  cases ways with
  | nameless => exact grows_push rfl rfl
  | added absent => exact (grows_push rfl rfl).trans (grows_enter _ _ _)
  | @known path id found =>
      apply grows_modify
      intro old present
      obtain ⟨node, there, spelled⟩ := (indexed path id).1 found
      rw [present] at there
      cases there
      exact Node.persists_offer spelled content

end Graph

end MapChain
