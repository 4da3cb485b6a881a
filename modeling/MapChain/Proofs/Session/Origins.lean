import MapChain.Proofs.Session.Calls

/-!
What is known of each path before anything is loaded, and what the roots of a session need. Main
statements: an answer does not depend on the number of the node that it is for, and where no map
carries content, a source comes with nothing but its path.
-/

set_option autoImplicit false

namespace MapChain

def SourceMap.named (map : SourceMap) (path : Option Path) : SourceMap :=
  { map with file := (path.map Path.slash).or map.file }

namespace Session

/-- The node of a path before anything is loaded. What has no node yet comes with nothing. -/
def seed (session : Session) (path : Option Path) : Node :=
  (path.bind fun path => (session.graph.lookup path).bind session.graph.node?).getD
    (.fresh path none)

def answer (files : FileSystem) (session : Session) (path : Option Path) : Except Fault Fetched :=
  ((session.seed path).ask 0).fetch files session.directory session.roots

/-- The paths of the roots, of their sources, of the sources of these, and so on. A source may have
no path. -/
inductive Needs (files : FileSystem) (session : Session) (roots : List Path) :
    Option Path → Prop where
  | root {file : Path} (member : file ∈ roots) :
      Needs files session roots (some (session.inputPath file))
  | source {parent : Option Path} {fetched : Fetched} {child : Child}
      (needs : Needs files session roots parent)
      (answered : session.answer files parent = .ok fetched) (member : child ∈ fetched.children) :
      Needs files session roots child.path

/-- No map that the roots lead to carries content. -/
def Barren (files : FileSystem) (session : Session) (roots : List Path) : Prop :=
  ∀ path fetched map, session.Needs files roots path → session.answer files path = .ok fetched →
    fetched.map = some map → ∀ index, map.content? index = none

/-- A session in which nothing has been loaded, or asked for. -/
structure Untouched (session : Session) : Prop where
  absolute : session.directory.isAbsolute = true
  indexed : session.graph.Indexed
  settled : session.graph.Settled
  named : ∀ id, ¬session.graph.Denotes id none
  fresh : ∀ id node, session.graph.node? id = some node →
    node.state = .unvisited ∧ node.mappings = none

end Session

variable {files : FileSystem} {origin session : Session} {roots : List Path} {graph : Graph}
  {id : NodeId} {node : Node} {path : Option Path} {fetched : Fetched} {directory : Path}

namespace Request

theorem fetch_with_id (files : FileSystem) (directory : Path) (roots : List Path)
    (request : Request) (id : NodeId) :
    ({ request with id := id } : Request).fetch files directory roots =
      (request.fetch files directory roots).map fun fetched => { fetched with id := id } := by
  have alike (content : Option String) :
      ({ request with id := id } : Request).fetchMap files directory content =
        request.fetchMap files directory content := rfl
  simp only [fetch, alike]
  change (request.fetchMap files directory (request.fetchContent files)).bind _ = _
  cases request.fetchMap files directory (request.fetchContent files) <;> rfl

end Request

namespace Session

theorem seed_none (session : Session) : session.seed none = .fresh none none := rfl

theorem seed_of_node (indexed : session.graph.Indexed)
    (present : session.graph.node? id = some node) {own : Path} (named : node.path = some own) :
    session.seed node.path = node := by
  have found : session.graph.lookup own = some id :=
    (indexed.found own id).2 ⟨own, ⟨node, present, named⟩, rfl⟩
  rw [seed, named, Option.bind_some, found, Option.bind_some, present]
  rfl

theorem seed_of_absent {own : Path} (absent : session.graph.lookup own = none) :
    session.seed (some own) = .fresh (some own) none := by
  rw [seed, Option.bind_some, absent]
  rfl

theorem Untouched.path_seed (untouched : origin.Untouched)
    (given : ∀ own, path = some own → own.IsSettled) : (origin.seed path).path = path := by
  cases path with
  | none => rfl
  | some own =>
      cases found : origin.graph.lookup own with
      | none => rw [seed_of_absent found]; rfl
      | some id =>
          obtain ⟨spelled, ⟨node, present, named⟩, same⟩ := (untouched.indexed.found own id).1 found
          have settled := untouched.settled id spelled ⟨node, present, named⟩
          have equal : spelled = own := by
            rw [← settled.fixed, same.normalize, (given own rfl).fixed]
          rw [seed, Option.bind_some, found, Option.bind_some, present, Option.getD_some, named,
            equal]

theorem answer_of_fetch
    (answered : ((origin.seed path).ask id).fetch files origin.directory origin.roots =
      .ok fetched) :
    origin.answer files path = .ok { fetched with id := 0 } := by
  have same := Request.fetch_with_id files origin.directory origin.roots
    ((origin.seed path).ask id) 0
  rw [answered] at same
  exact same

theorem fetch_of_answer (answered : origin.answer files path = .ok fetched) (id : NodeId) :
    ((origin.seed path).ask id).fetch files origin.directory origin.roots =
      .ok { fetched with id := id } := by
  have same := Request.fetch_with_id files origin.directory origin.roots
    ((origin.seed path).ask 0) id
  rw [answer] at answered
  rw [answered] at same
  exact same

theorem children_of_answer (untouched : origin.Untouched)
    (given : ∀ own, path = some own → own.IsSettled)
    (answered : origin.answer files path = .ok fetched) {map : SourceMap}
    (carried : fetched.map = some map) :
    fetched.children = map.children files origin.directory origin.roots path := by
  obtain ⟨-, -, children⟩ := Request.of_fetch answered
  have own : ((origin.seed path).ask 0).path = path := untouched.path_seed given
  rw [children map carried, own]

theorem childless_of_answer (answered : origin.answer files path = .ok fetched)
    (bare : fetched.map = none) : fetched.children = [] := by
  unfold answer Request.fetch at answered
  cases found : ((origin.seed path).ask 0).fetchMap files origin.directory
      (((origin.seed path).ask 0).fetchContent files) with
  | error fault =>
      simp only [found] at answered
      cases answered
  | ok map =>
      simp only [found] at answered
      cases answered
      have none : map = none := bare
      rw [none]
      rfl

theorem Needs.is_settled (untouched : origin.Untouched) (needs : origin.Needs files roots path) :
    ∀ own, path = some own → own.IsSettled := by
  induction needs with
  | root member =>
      intro own same
      cases same
      exact is_settled_input_path untouched.absolute _
  | @source parent fetched child needs answered member induction =>
      cases carried : fetched.map with
      | none =>
          rw [childless_of_answer answered carried] at member
          cases member
      | some map =>
          rw [children_of_answer untouched induction answered carried] at member
          exact fun own named => SourceMap.settled_of_mem_children untouched.absolute member named

theorem Barren.content (barren : origin.Barren files roots) (untouched : origin.Untouched)
    (needs : origin.Needs files roots path) (answered : origin.answer files path = .ok fetched)
    {child : Child} (member : child ∈ fetched.children) : child.content = none := by
  cases carried : fetched.map with
  | none =>
      rw [childless_of_answer answered carried] at member
      cases member
  | some map =>
      rw [children_of_answer untouched (needs.is_settled untouched) answered carried] at member
      obtain ⟨index, listed⟩ := List.getElem?_of_mem member
      rw [SourceMap.content_of_children listed]
      exact barren path fetched map needs answered carried index

end Session

namespace Graph

def Noted (graph : Graph) : Prop :=
  ∀ id node, graph.node? id = some node → node.path ≠ none ∧ node.mappings = none

theorem Noted.attach (noted : graph.Noted) (path : Path) (content : Option String) :
    (graph.attach (some path) content).1.Noted := by
  intro id new there
  have fresh : (Node.fresh (some path) content).path ≠ none ∧
      (Node.fresh (some path) content).mappings = none := by simp [Node.fresh]
  cases found : graph.lookup path with
  | none =>
      rw [attach_of_lookup_none found] at there
      rcases node_push_cases there with ⟨-, rfl⟩ | before
      · exact fresh
      · exact noted id new before
  | some own =>
      rw [attach_of_lookup found] at there
      rcases node_modify_cases there with ⟨-, before⟩ | ⟨rfl, old, before, rfl⟩
      · exact noted id new before
      · obtain ⟨named, unread⟩ := noted id old before
        unfold Node.offer
        split <;> exact ⟨named, unread⟩

end Graph

namespace Session

theorem noted_start (directory : Path) (options : Options) :
    (start directory options).graph.Noted := by
  have contents (entries : List (Path × String)) (graph : Graph) (noted : graph.Noted) :
      (entries.foldl (seedContent directory) graph).Noted := by
    induction entries generalizing graph with
    | nil => exact noted
    | cons entry entries induction => exact induction _ (noted.attach _ _)
  have maps (entries : List (Path × SourceMap)) (graph : Graph) (noted : graph.Noted) :
      (entries.foldl (seedMap directory) graph).Noted := by
    induction entries generalizing graph with
    | nil => exact noted
    | cons entry entries induction =>
        apply induction
        intro id new there
        have attached := noted.attach (Path.absolute directory entry.1) none
        rcases Graph.node_modify_cases there with ⟨-, before⟩ | ⟨-, old, before, rfl⟩
        · exact attached id new before
        · exact attached _ old before
  apply maps
  apply contents
  intro id node present
  simp [Graph.empty, Graph.node?] at present

theorem untouched_start (absolute : directory.isAbsolute = true) (options : Options) :
    (start directory options).Untouched := by
  have seeded := seeded_start directory options
  have orderly := (Graph.orderly_empty.steps (steps_start absolute options)).1
  have noted := noted_start directory options
  refine ⟨absolute, seeded.indexed, orderly.settled, ?_, ?_⟩
  · rintro id ⟨node, present, nameless⟩
    exact (noted id node present).1 nameless
  · intro id node present
    refine ⟨?_, (noted id node present).2⟩
    by_contra visited
    exact (seeded.untouched id node present).1 (loaded_of_tidy seeded.tidy present visited)

end Session

end MapChain
