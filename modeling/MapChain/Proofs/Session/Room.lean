import MapChain.Proofs.FileSystem.Writing
import MapChain.Proofs.Session.Leading
import MapChain.Proofs.Session.Surviving

/-!
How much a session can still take from the file system and from some further paths. The room of a
graph counts the nodes whose loading has not begun and the places that no node stands for. Main
statement: a wave never makes room, and where it leaves as much as there was, the next wave consists
of new nodes at no such place.
-/

set_option autoImplicit false

namespace MapChain

variable {files : FileSystem} {paths : List Path}

namespace FileSystem

/-- Where the entries of the file tree and some further paths are. -/
def places (files : FileSystem) (paths : List Path) : List (List Path.Component) :=
  files.entries.map (fun entry => .root :: entry.1.map .name) ++ paths.map (·.components)

theorem components_mem_places {path : Path} {text : String}
    (read : files.readText? path = some text) : path.components ∈ files.places paths := by
  obtain ⟨address, bytes, located, inside, -⟩ := entry_of_read read
  rw [components_of_address located]
  exact List.mem_append_left _ (List.mem_map.2 ⟨_, inside, rfl⟩)

end FileSystem

namespace Graph

variable {graph later : Graph} {id : NodeId} {place : List Path.Component}

def Taken (graph : Graph) (place : List Path.Component) : Prop :=
  ∃ id node path, graph.node? id = some node ∧ node.path = some path ∧ path.components = place

open Classical in
noncomputable def vacant (graph : Graph) (files : FileSystem) (paths : List Path) :
    Finset (List Path.Component) :=
  (files.places paths).toFinset.filter fun place => ¬graph.Taken place

noncomputable def room (graph : Graph) (files : FileSystem) (paths : List Path) : Nat :=
  (graph.inState .unvisited).toFinset.card + (graph.vacant files paths).card

theorem mem_vacant :
    place ∈ graph.vacant files paths ↔ place ∈ files.places paths ∧ ¬graph.Taken place := by
  classical
  rw [vacant, Finset.mem_filter, List.mem_toFinset]

end Graph

namespace Session

variable {given : Bool → String → Prop} {session : Session} {wave : List NodeId}
  {ended : Session × Except Fault (List NodeId)}

theorem Passes.unvisited_subset (passes : session.Passes given wave ended) :
    (ended.1.graph.inState .unvisited).toFinset ⊆
      (session.graph.inState .unvisited).toFinset := by
  intro id member
  obtain ⟨new, there, unvisited⟩ := Graph.mem_in_state.1 (List.mem_toFinset.1 member)
  cases before : session.graph.node? id with
  | none =>
      rw [(passes.comes id new there before).queued] at unvisited
      cases unvisited
  | some old =>
      refine List.mem_toFinset.2 (Graph.mem_in_state.2 ⟨old, before, ?_⟩)
      obtain ⟨same, found, outlasts, -⟩ := passes.survives id old before
      rw [there] at found
      cases found
      by_contra visited
      exact outlasts.visited visited unvisited

theorem Passes.taken (passes : session.Passes given wave ended) {place : List Path.Component}
    (taken : session.graph.Taken place) : ended.1.graph.Taken place := by
  obtain ⟨id, old, path, present, named, located⟩ := taken
  obtain ⟨new, there, outlasts, -⟩ := passes.survives id old present
  exact ⟨id, new, path, there, outlasts.path.trans named, located⟩

theorem Passes.vacant_subset (passes : session.Passes given wave ended) (files : FileSystem)
    (paths : List Path) :
    ended.1.graph.vacant files paths ⊆ session.graph.vacant files paths := by
  intro place member
  obtain ⟨listed, free⟩ := Graph.mem_vacant.1 member
  exact Graph.mem_vacant.2 ⟨listed, fun taken => free (passes.taken taken)⟩

theorem Passes.room_le (passes : session.Passes given wave ended) (files : FileSystem)
    (paths : List Path) :
    ended.1.graph.room files paths ≤ session.graph.room files paths :=
  Nat.add_le_add (Finset.card_le_card passes.unvisited_subset)
    (Finset.card_le_card (passes.vacant_subset files paths))

/-- A wave that leaves as much room as there was gives out new nodes only, and at other places. -/
theorem Passes.of_room (passes : session.Passes given wave ended)
    (roomy : session.graph.room files paths ≤ ended.1.graph.room files paths)
    {next : List NodeId} (completed : ended.2 = .ok next) {id : NodeId} (member : id ∈ next)
    {node : Node} (present : ended.1.graph.node? id = some node) (queued : node.state = .queued) :
    node.Arrives given ∧
      ∀ path, node.path = some path → path.components ∉ files.places paths := by
  have fewer := Finset.card_le_card passes.unvisited_subset
  have scarcer := Finset.card_le_card (passes.vacant_subset files paths)
  unfold Graph.room at roomy
  have begun := Finset.eq_of_subset_of_card_le passes.unvisited_subset (by omega)
  have filled := Finset.eq_of_subset_of_card_le (passes.vacant_subset files paths) (by omega)
  have absent : session.graph.node? id = none := by
    cases before : session.graph.node? id with
    | none => rfl
    | some old =>
        have unvisited := passes.fresh next completed id member old before
        have waiting := List.mem_toFinset.2 (Graph.mem_in_state.2 ⟨old, before, unvisited⟩)
        rw [← begun] at waiting
        obtain ⟨same, there, unvisited⟩ := Graph.mem_in_state.1 (List.mem_toFinset.1 waiting)
        rw [present] at there
        cases there
        rw [queued] at unvisited
        cases unvisited
  refine ⟨passes.comes id node present absent, ?_⟩
  intro path named listed
  have free : path.components ∈ session.graph.vacant files paths := by
    refine Graph.mem_vacant.2 ⟨listed, ?_⟩
    rintro ⟨other, old, own, there, known, found⟩
    obtain ⟨new, shown, outlasts, -⟩ := passes.survives other old there
    have here : new.isAt path = true := by
      rw [Node.isAt, outlasts.path, known]
      exact decide_eq_true found
    have same : node.isAt path = true := by
      rw [Node.isAt, named]
      exact decide_eq_true rfl
    rw [passes.indexed.unique present shown same here, there] at absent
    cases absent
  rw [← filled] at free
  exact (Graph.mem_vacant.1 free).2 ⟨id, node, path, present, named, rfl⟩

end Session

end MapChain
