import MapChain.Proofs.Session.Attaching

/-!
Nodes that are not being worked on while others are. Main statement: attaching the sources of a map
takes nothing from a node that was there before, and the nodes that come are queued, without a map,
and have no content but that of the map.
-/

set_option autoImplicit false

namespace MapChain

/-- What may happen to a node while sources are attached: it is queued, and takes content that it
has none of. `given` says which contents come with sources that have a path, and which with sources
that have none. -/
structure Node.Awaits (given : Bool → String → Prop) (old new : Node) : Prop where
  path : new.path = old.path
  map : new.map = old.map
  mappings : new.mappings = old.mappings
  sources : new.sources = old.sources
  state : new.state = old.state ∨ old.state = .unvisited ∧ new.state = .queued
  content : new.content = old.content ∨
    old.isPending = true ∧ old.content = none ∧
      ∃ text, new.content = some text ∧ given old.path.isSome text

/-- A node that has come with the sources of a map and still has to be loaded. -/
structure Node.Arrives (given : Bool → String → Prop) (node : Node) : Prop where
  queued : node.state = .queued
  map : node.map = none
  sources : node.sources = []
  content : ∀ text, node.content = some text → given node.path.isSome text

namespace Node

variable {given : Bool → String → Prop} {old new newer node : Node}

theorem awaits_refl (node : Node) : node.Awaits given node :=
  ⟨rfl, rfl, rfl, rfl, Or.inl rfl, Or.inl rfl⟩

theorem Awaits.pending (awaits : old.Awaits given new) : new.isPending = old.isPending := by
  rcases awaits.state with same | ⟨unvisited, queued⟩
  · unfold isPending
    rw [same]
  · simp [isPending, unvisited, queued]

theorem Awaits.trans (first : old.Awaits given new) (second : new.Awaits given newer) :
    old.Awaits given newer where
  path := second.path.trans first.path
  map := second.map.trans first.map
  mappings := second.mappings.trans first.mappings
  sources := second.sources.trans first.sources
  state := by
    rcases second.state with same | ⟨unvisited, queued⟩
    · rw [same]
      exact first.state
    · rcases first.state with before | ⟨-, between⟩
      · exact Or.inr ⟨before.symm.trans unvisited, queued⟩
      · rw [between] at unvisited
        cases unvisited
  content := by
    rcases second.content with same | ⟨pending, empty, taken⟩
    · rw [same]
      exact first.content
    · rw [first.path] at taken
      rcases first.content with before | ⟨-, -, text, between, -⟩
      · exact Or.inr ⟨first.pending.symm.trans pending, before.symm.trans empty, taken⟩
      · rw [between] at empty
        cases empty

/-- A node whose turn has come or gone is left alone. -/
theorem Awaits.eq_of_settled (awaits : old.Awaits given new) (settled : old.isPending = false) :
    new = old := by
  have state : new.state = old.state := by
    rcases awaits.state with same | ⟨unvisited, -⟩
    · exact same
    · simp [isPending, unvisited] at settled
  have content : new.content = old.content := by
    rcases awaits.content with same | ⟨pending, -⟩
    · exact same
    · rw [settled] at pending
      cases pending
  obtain ⟨path, map, mappings, sources, -, -⟩ := awaits
  cases old
  cases new
  simp_all

theorem Awaits.visited (awaits : old.Awaits given new) (visited : old.state ≠ .unvisited) :
    new.state = old.state := by
  rcases awaits.state with same | ⟨unvisited, -⟩
  · exact same
  · exact absurd unvisited visited

theorem Arrives.await (arrives : old.Arrives given) (awaits : old.Awaits given new) :
    new.Arrives given where
  queued := (awaits.visited (by simp [arrives.queued])).trans arrives.queued
  map := awaits.map.trans arrives.map
  sources := awaits.sources.trans arrives.sources
  content := by
    intro text shown
    rw [awaits.path]
    rcases awaits.content with same | ⟨-, -, other, taken, carried⟩
    · exact arrives.content text (same.symm.trans shown)
    · rw [shown] at taken
      cases taken
      exact carried

theorem awaits_offer {content : Option String} (node : Node)
    (carried : ∀ text, content = some text → given node.path.isSome text) :
    node.Awaits given (node.offer content) := by
  unfold offer
  split
  next vacant =>
    obtain ⟨pending, empty⟩ := Bool.and_eq_true_iff.1 vacant
    refine ⟨rfl, rfl, rfl, rfl, Or.inl rfl, ?_⟩
    have bare := Option.isNone_iff_eq_none.1 empty
    cases shown : content with
    | none => exact Or.inl bare.symm
    | some text => exact Or.inr ⟨pending, bare, text, rfl, carried text shown⟩
  next => exact awaits_refl node

theorem awaits_queue (unvisited : node.state = .unvisited) :
    node.Awaits given { node with state := .queued } :=
  ⟨rfl, rfl, rfl, rfl, Or.inr ⟨unvisited, rfl⟩, Or.inl rfl⟩

end Node

namespace Graph

variable {given : Bool → String → Prop} {graph later latest : Graph}

/-- Nothing is taken from the nodes of a graph, and those that come are still to be loaded. -/
structure Widens (given : Bool → String → Prop) (graph later : Graph) : Prop where
  awaits : ∀ id old, graph.node? id = some old →
    ∃ new, later.node? id = some new ∧ old.Awaits given new
  comes : ∀ id new, later.node? id = some new → graph.node? id = none → new.Arrives given

theorem widens_refl (graph : Graph) : graph.Widens given graph where
  awaits := fun _ old present => ⟨old, present, Node.awaits_refl old⟩
  comes := by
    intro id new present absent
    rw [present] at absent
    cases absent

theorem Widens.trans (first : Widens given graph later) (second : Widens given later latest) :
    Widens given graph latest where
  awaits := by
    intro id old present
    obtain ⟨new, there, step⟩ := first.awaits id old present
    obtain ⟨newer, found, next⟩ := second.awaits id new there
    exact ⟨newer, found, step.trans next⟩
  comes := by
    intro id newer found absent
    cases between : later.node? id with
    | none => exact second.comes id newer found between
    | some new =>
        obtain ⟨other, there, next⟩ := second.awaits id new between
        rw [found] at there
        cases there
        exact (first.comes id new between absent).await next

theorem node_of_attach (indexed : graph.Indexed) {path : Option Path} {content : Option String}
    {id : NodeId} {new : Node}
    (carried : ∀ text, content = some text → given path.isSome text)
    (present : (graph.attach path content).1.node? id = some new) :
    (∃ old, graph.node? id = some old ∧ old.Awaits given new ∧ new.state = old.state) ∨
      (graph.node? id = none ∧ id = (graph.attach path content).2 ∧ new = .fresh path content) := by
  have ways := attached graph path content
  generalize graph.attach path content = result at ways present
  have pushed {node : Node} (there : (graph.push node).node? id = some new) :
      (∃ old, graph.node? id = some old ∧ old.Awaits given new ∧ new.state = old.state) ∨
        (graph.node? id = none ∧ id = graph.size ∧ new = node) := by
    rcases node_push_cases there with ⟨last, same⟩ | before
    · refine Or.inr ⟨?_, last, same⟩
      rw [last]
      exact Array.getElem?_eq_none (Nat.le_refl _)
    · exact Or.inl ⟨new, before, Node.awaits_refl new, rfl⟩
  cases ways with
  | nameless => exact pushed present
  | added absent => exact pushed present
  | known found =>
      rcases node_modify_cases present with ⟨-, before⟩ | ⟨rfl, old, before, rfl⟩
      · exact Or.inl ⟨new, before, Node.awaits_refl new, rfl⟩
      · have named : old.path.isSome = true := by
          obtain ⟨node, there, here⟩ := (indexed _ _).1 found
          rw [before] at there
          cases there
          exact Option.isSome_of_any here
        rw [Option.isSome_some, ← named] at carried
        exact Or.inl ⟨old, before, old.awaits_offer carried, old.state_offer content⟩

theorem node_of_attach_freely (indexed : graph.Indexed) {path : Option Path}
    {content : Option String} {id : NodeId} {new : Node}
    (present : (graph.attach path content).1.node? id = some new) :
    (∃ old, graph.node? id = some old ∧ old.Awaits (fun _ _ => True) new ∧
        new.state = old.state) ∨
      (graph.node? id = none ∧ id = (graph.attach path content).2 ∧ new = .fresh path content) :=
  node_of_attach indexed (fun _ _ => trivial) present

end Graph

namespace Session

variable {given : Bool → String → Prop} {graph : Graph}

theorem node_of_attach_child (indexed : graph.Indexed) {child : Child}
    (carried : ∀ text, child.content = some text → given child.path.isSome text)
    {id : NodeId} {new : Node} (present : (attachChild graph child).1.node? id = some new) :
    (∃ old, graph.node? id = some old ∧ old.Awaits given new) ∨
      (graph.node? id = none ∧ new.Arrives given) := by
  have attached {between : Node}
      (there : (graph.attach child.path child.content).1.node? id = some between) :=
    Graph.node_of_attach indexed carried there
  obtain ⟨node, shown, ⟨unvisited, same⟩ | ⟨visited, same⟩⟩ := attach_child_cases indexed child
  · rw [same] at present
    rcases Graph.node_modify_cases present with ⟨different, there⟩ | ⟨rfl, between, there, rfl⟩
    · rcases attached there with ⟨old, before, awaits, -⟩ | ⟨-, last, -⟩
      · exact Or.inl ⟨old, before, awaits⟩
      · exact absurd last different
    · rw [shown] at there
      cases there
      rcases attached shown with ⟨old, before, awaits, -⟩ | ⟨absent, -, fresh⟩
      · exact Or.inl ⟨old, before, awaits.trans (Node.awaits_queue unvisited)⟩
      · rw [fresh]
        exact Or.inr ⟨absent, rfl, rfl, rfl, carried⟩
  · rw [same] at present
    rcases attached present with ⟨old, before, awaits, -⟩ | ⟨-, last, fresh⟩
    · exact Or.inl ⟨old, before, awaits⟩
    · -- A fresh node is unvisited, and so would have been queued.
      rw [last, shown] at present
      cases present
      rw [fresh] at visited
      exact absurd rfl visited

theorem widens_attach_child (indexed : graph.Indexed) {child : Child}
    (carried : ∀ text, child.content = some text → given child.path.isSome text) :
    Graph.Widens given graph (attachChild graph child).1 where
  awaits := by
    intro id old present
    obtain ⟨new, there, -⟩ := (grows_attach_child indexed child).persists id old present
    rcases node_of_attach_child indexed carried there with ⟨other, before, awaits⟩ | ⟨absent, -⟩
    · rw [present] at before
      cases before
      exact ⟨new, there, awaits⟩
    · rw [present] at absent
      cases absent
  comes := by
    intro id new there absent
    rcases node_of_attach_child indexed carried there with ⟨old, before, -⟩ | ⟨-, arrives⟩
    · rw [before] at absent
      cases absent
    · exact arrives

theorem widens_attach_children (indexed : graph.Indexed) {children : List Child}
    (carried : ∀ child ∈ children, ∀ text, child.content = some text →
      given child.path.isSome text) :
    Graph.Widens given graph (attachChildren graph children).1 := by
  induction children generalizing graph with
  | nil => exact Graph.widens_refl graph
  | cons child children induction =>
      rw [List.forall_mem_cons] at carried
      exact (widens_attach_child indexed carried.1).trans
        (induction (indexed_attach_child indexed child) carried.2)

end Session

end MapChain
