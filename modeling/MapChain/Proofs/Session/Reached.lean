import MapChain.Proofs.Session.Waves

/-!
The sessions that a caller can bring about. Main statements: each of them is sound, and if every
load of it has completed, no node is on its way.
-/

set_option autoImplicit false

namespace MapChain

variable {files : FileSystem} {directory : Path} {roots : List Path} {options : Options}
  {graph : Graph} {session : Session} {outcomes : List LoadOutcome}

/-- A session after any calls in any order, with the outcomes of its loads, the last one first. -/
inductive Session.Reached (files : FileSystem) (directory : Path) (options : Options) :
    List LoadOutcome → Session → Prop where
  | start : Reached files directory options [] (.start directory options)
  | addRoot {outcomes : List LoadOutcome} {session : Session} (file : Path)
      (earlier : Reached files directory options outcomes session) :
      Reached files directory options outcomes (session.addRoot file).1
  | addContent {outcomes : List LoadOutcome} {session next : Session} {file : Option Path}
      {content : String} {id : NodeId}
      (earlier : Reached files directory options outcomes session)
      (added : session.addContent file content = .ok (next, id)) :
      Reached files directory options outcomes next
  | load {outcomes : List LoadOutcome} {session : Session} (pace : Session.Pace) (waves : Nat)
      (root : NodeId) (earlier : Reached files directory options outcomes session) :
      Reached files directory options ((session.load pace files waves root).2 :: outcomes)
        (session.load pace files waves root).1

namespace Node

def supply (content : String) (node : Node) : Node :=
  if node.isLoaded then node else { node with content := some content }

theorem path_supply (content : String) (node : Node) :
    (node.supply content).path = node.path := by
  unfold supply
  split <;> rfl

theorem state_supply (content : String) (node : Node) :
    (node.supply content).state = node.state := by
  unfold supply
  split <;> rfl

theorem sources_supply (content : String) (node : Node) :
    (node.supply content).sources = node.sources := by
  unfold supply
  split <;> rfl

end Node

namespace Graph

/-- A graph of which nothing has been loaded. -/
structure Seeded (graph : Graph) : Prop where
  indexed : graph.Indexed
  tidy : graph.Tidy [] []
  untouched : ∀ id node, graph.node? id = some node → node.state ≠ .loaded ∧ node.sources = []

theorem seeded_empty : empty.Seeded := by
  have absent (id : NodeId) (node : Node) : empty.node? id ≠ some node := by
    simp [empty, node?]
  refine ⟨indexed_empty, ⟨?_, ?_⟩, ?_⟩
  · intro id node present
    exact absurd present (absent id node)
  · intro id node present
    exact absurd present (absent id node)
  · intro id node present
    exact absurd present (absent id node)

theorem Seeded.attach (seeded : graph.Seeded) (path : Option Path) (content : Option String) :
    (graph.attach path content).1.Seeded where
  indexed := indexed_attach seeded.indexed path content
  tidy := tidy_attach seeded.tidy path content
  untouched := by
    intro id node present
    have bare (other : NodeId) (old : Node) (there : graph.node? other = some old)
        (mapped : old.sources ≠ []) : old.state = .loaded :=
      absurd (seeded.untouched other old there).2 mapped
    have before (settled : node.state = .loaded ∨ node.sources ≠ []) :
        node.state ≠ .loaded ∧ node.sources = [] :=
      seeded.untouched id node
        ((grows_attach seeded.indexed path content).of_settled bare present settled)
    constructor
    · intro loaded
      exact (before (Or.inl loaded)).1 loaded
    · by_contra sources
      exact sources (before (Or.inr sources)).2

theorem Seeded.modify (seeded : graph.Seeded) (id : NodeId) {change : Node → Node}
    (path : ∀ node, (change node).path = node.path)
    (state : ∀ node, (change node).state = node.state)
    (sources : ∀ node, (change node).sources = node.sources) :
    (graph.modify id change).Seeded where
  indexed := indexed_modify seeded.indexed path
  tidy := tidy_modify seeded.tidy state
  untouched := by
    intro other node present
    rcases node_modify_cases present with ⟨-, before⟩ | ⟨-, old, before, rfl⟩
    · exact seeded.untouched other node before
    · rw [state, sources]
      exact seeded.untouched id old before

theorem modify_push_size (graph : Graph) (node : Node) (change : Node → Node) :
    (graph.push node).modify graph.size change = graph.push (change node) := by
  unfold modify push size
  congr 1
  apply Array.ext
  · simp
  · intro index inside bound
    rw [Array.getElem_modify, Array.getElem_push, Array.getElem_push]
    have within : index < graph.nodes.size + 1 := by simpa using bound
    split <;> split <;> first | rfl | omega

def supply (graph : Graph) (path : Option Path) (content : String) : Graph :=
  (graph.attach path none).1.modify (graph.attach path none).2 (·.supply content)

theorem grows_supply (indexed : graph.Indexed) (path : Option Path) (content : String) :
    graph.Grows (graph.supply path content) := by
  cases path with
  | none =>
      unfold supply attach
      rw [modify_push_size]
      exact grows_push rfl rfl
  | some path =>
      apply (grows_attach indexed (some path) none).trans
      apply grows_modify
      intro old present
      obtain ⟨node, there, -, spelled⟩ := node_attach indexed (some path) none
      rw [present] at there
      cases there
      have named := spelled path rfl
      by_cases loaded : old.isLoaded = true
      · rw [Node.supply, if_pos loaded]
        exact Node.persists_refl old
      · rw [Node.supply, if_neg loaded]
        refine ⟨rfl, rfl, ?_, fun fetching => ⟨fetching, rfl⟩, rfl, id, ?_⟩
        · intro stage
          simp [Node.isLoaded, stage] at loaded
        · intro nameless
          simp [Node.isAt, nameless] at named

theorem indexed_supply (indexed : graph.Indexed) (path : Option Path) (content : String) :
    (graph.supply path content).Indexed :=
  indexed_modify (indexed_attach indexed path none) (Node.path_supply content)

theorem tidy_supply {queue flight : List NodeId} (tidy : graph.Tidy queue flight)
    (path : Option Path) (content : String) : (graph.supply path content).Tidy queue flight :=
  tidy_modify (tidy_attach tidy path none) (Node.state_supply content)

end Graph

namespace Session

theorem seeded_start (directory : Path) (options : Options) :
    (start directory options).graph.Seeded := by
  have contents (entries : List (Path × String)) (graph : Graph) (seeded : graph.Seeded) :
      (entries.foldl (seedContent directory) graph).Seeded := by
    induction entries generalizing graph with
    | nil => exact seeded
    | cons entry entries induction => exact induction _ (seeded.attach _ _)
  have maps (entries : List (Path × SourceMap)) (graph : Graph) (seeded : graph.Seeded) :
      (entries.foldl (seedMap directory) graph).Seeded := by
    induction entries generalizing graph with
    | nil => exact seeded
    | cons entry entries induction =>
        have attached := seeded.attach (some (Path.absolute directory entry.1)) none
        apply induction
        exact attached.modify _ (fun _ => rfl) (fun _ => rfl) fun _ => rfl
  exact maps _ _ (contents _ _ Graph.seeded_empty)

theorem sound_start (files : FileSystem) (directory : Path) (options : Options) :
    (start directory options).Sound files directory
      (searchRoots directory options.sourceRoots) [] := by
  have seeded := seeded_start directory options
  refine ⟨rfl, rfl, seeded.indexed, Graph.flying_nil _, ?_, ?_, ?_⟩
  · intro id node present sources
    exact absurd (seeded.untouched id node present).2 sources
  · intro id node present loaded
    exact absurd loaded (seeded.untouched id node present).1
  · intro digest lines member
    simp [start, DecodeCache.empty] at member

theorem add_content_cases (session : Session) (file : Option Path) (content : String) :
    session.addContent file content = .error .missingInput ∨
      session.addContent file content =
        .ok ({ session with graph := session.graph.supply (file.map session.inputPath) content },
          (session.graph.attach (file.map session.inputPath) none).2) := by
  unfold addContent
  split
  · exact Or.inl rfl
  · exact Or.inr rfl

theorem add_content_eq {next : Session} {file : Option Path} {content : String} {id : NodeId}
    (added : session.addContent file content = .ok (next, id)) :
    next = { session with graph := session.graph.supply (file.map session.inputPath) content } := by
  rcases add_content_cases session file content with refused | taken
  · rw [refused] at added
    cases added
  · rw [taken] at added
    cases added
    rfl

theorem sound_of_reached (reached : Reached files directory options outcomes session) :
    session.Sound files directory (searchRoots directory options.sourceRoots) [] := by
  induction reached with
  | start => exact sound_start files directory options
  | @addRoot outcomes session file earlier sound =>
      exact sound.grow (Graph.grows_attach sound.indexed (some (session.inputPath file)) none)
        (Graph.indexed_attach sound.indexed (some (session.inputPath file)) none)
  | addContent earlier added sound =>
      rw [add_content_eq added]
      exact sound.grow (Graph.grows_supply sound.indexed _ _)
        (Graph.indexed_supply sound.indexed _ _)
  | load pace waves root earlier sound => exact sound.load pace waves root

theorem tidy_of_reached (reached : Reached files directory options outcomes session)
    (completed : ∀ outcome ∈ outcomes, outcome = .complete) : session.graph.Tidy [] [] := by
  induction reached with
  | start => exact (seeded_start directory options).tidy
  | @addRoot outcomes session file earlier tidy =>
      exact Graph.tidy_attach (tidy completed) (some (session.inputPath file)) none
  | addContent earlier added tidy =>
      rw [add_content_eq added]
      exact Graph.tidy_supply (tidy completed) _ _
  | load pace waves root earlier tidy =>
      rw [List.forall_mem_cons] at completed
      exact tidy_load (sound_of_reached earlier) (tidy completed.2) completed.1

end Session

end MapChain
