import MapChain.Proofs.Session.Accords
import MapChain.Proofs.Session.Finality

/-!
Sessions between two loads, where all loads have completed and no map has carried content. Main
statement: what there is at a path is told by the start of the session and by the roots that have
been loaded, whatever the order in which they were.
-/

set_option autoImplicit false

namespace MapChain

variable {files : FileSystem} {origin session : Session} {roots : List Path} {id : NodeId}
  {node : Node} {path : Path} {fetched : Fetched} {directory : Path}

/-- What can be told of a node without naming any other node by its number. A source is named by
its path, if there is such a node and it has one. -/
structure Account where
  path : Option Path
  state : LoadState
  content : Option String
  map : Option SourceMap
  mappings : Option Mappings
  sources : List (Option (Option Path))

def Account.unread (account : Account) : Account := { account with mappings := none }

namespace Graph

def account (graph : Graph) (path : Path) : Option Account :=
  ((graph.lookup path).bind graph.node?).map fun node =>
    ⟨node.path, node.state, node.content, node.map, node.mappings,
      node.sources.map fun id => (graph.node? id).map (·.path)⟩

def Holds (graph : Graph) (path : Option Path) : Prop :=
  ∃ id node, graph.node? id = some node ∧ node.path = path ∧ node.state = .loaded

theorem Holds.mature {graph later : Graph} {own : Option Path} (holds : graph.Holds own)
    (matures : graph.Matures later) : later.Holds own := by
  obtain ⟨id, node, present, named, loaded⟩ := holds
  obtain ⟨new, there, step⟩ := matures id node present
  rw [step.final loaded] at there
  exact ⟨id, node, there, named, loaded⟩

theorem Indexed.account_eq {graph : Graph} (indexed : graph.Indexed)
    (present : graph.node? id = some node) (there : node.isAt path = true) :
    graph.account path =
      some ⟨node.path, node.state, node.content, node.map, node.mappings,
        node.sources.map fun id => (graph.node? id).map (·.path)⟩ := by
  rw [account, (indexed path id).2 ⟨node, present, there⟩, Option.bind_some, present]
  rfl

theorem Plays.path_eq {graph : Graph} {flight : List Request} {child : Child}
    (plays : graph.Plays flight child id) (settled : graph.Settled)
    (given : ∀ own, child.path = some own → own.IsSettled) :
    (graph.node? id).map (·.path) = some child.path := by
  obtain ⟨node, present, -, fits⟩ := plays
  rw [present, Option.map_some]
  cases named : child.path with
  | none =>
      rw [Node.fits_nameless named] at fits
      rw [fits.nameless]
  | some own =>
      rw [Node.fits_named named] at fits
      rw [Node.path_of_is_at fits (given own named)]
      intro spelled shown
      exact settled id spelled ⟨node, present, shown⟩

end Graph

namespace Session

def neededTexts (files : FileSystem) (session : Session) (roots : List Path) : Set String :=
  {text | ∃ path fetched map, session.Needs files roots path ∧
    session.answer files path = .ok fetched ∧ fetched.map = some map ∧ map.mappings = text}

/-- All loads so far have completed, of roots that were asked for. -/
structure Standing (files : FileSystem) (origin : Session) (roots : List Path)
    (session : Session) : Prop where
  sound : session.Sound files origin.directory origin.roots []
  tidy : session.graph.Tidy [] []
  accords : session.graph.Accords files origin roots [] []

structure Finished (files : FileSystem) (origin : Session) (roots : List Path)
    (session : Session) : Prop extends Standing files origin roots session where
  rooted : ∀ file ∈ roots, session.graph.Holds (some (origin.inputPath file))

theorem Standing.accord (standing : Standing files origin roots session)
    (present : session.graph.node? id = some node) :
    node.Accords files origin roots [] id :=
  standing.accords.nodes id node present (by simp)

theorem Standing.needs_of_loaded (standing : Standing files origin roots session)
    (present : session.graph.node? id = some node) (loaded : node.state = .loaded) :
    origin.Needs files roots node.path := by
  rcases (standing.accord present).needed with needs | ⟨unvisited, -⟩
  · exact needs
  · rw [loaded] at unvisited
    cases unvisited

theorem standing_start (files : FileSystem) (absolute : directory.isAbsolute = true)
    (options : Options) (roots : List Path) :
    Standing files (start directory options) roots (start directory options) where
  sound := sound_start files directory options
  tidy := (seeded_start directory options).tidy
  accords := by
    have untouched := untouched_start absolute options
    refine ⟨untouched.settled, fun _ _ denotes => denotes, ?_⟩
    intro id node present _
    obtain ⟨unvisited, unread⟩ := untouched.fresh id node present
    obtain ⟨own, named⟩ : ∃ own, node.path = some own := by
      apply Option.ne_none_iff_exists'.1
      exact fun nameless => untouched.named id ⟨node, present, nameless⟩
    have same := seed_of_node untouched.indexed present named
    refine ⟨Or.inr ⟨unvisited, id, node, present, rfl⟩, ?_, ?_, fun _ => unread, ?_⟩
    · rw [same]
      exact fun _ => ⟨rfl, rfl⟩
    · simp [unvisited]
    · simp [unvisited]

theorem Standing.input_path (standing : Standing files origin roots session) (file : Path) :
    session.inputPath file = origin.inputPath file := by
  rw [inputPath, inputPath, standing.sound.unmoved]

theorem Standing.add_root (standing : Standing files origin roots session)
    (untouched : origin.Untouched) {file : Path} (member : file ∈ roots) :
    Standing files origin roots (session.addRoot file).1 ∧
      session.graph.Matures (session.addRoot file).1.graph ∧
      (session.addRoot file).1.graph.Denotes (session.addRoot file).2
        (some (origin.inputPath file)) := by
  have indexed := standing.sound.indexed
  have needs : origin.Needs files roots (some (session.inputPath file)) := by
    rw [standing.input_path]
    exact .root member
  have grows := Graph.grows_attach indexed (some (session.inputPath file)) none
  have attached := standing.accords.attach untouched indexed needs
  obtain ⟨node, present, -, there⟩ :=
    Graph.node_attach indexed (some (session.inputPath file)) none
  have named : node.path = some (session.inputPath file) := by
    apply Node.path_of_is_at (there _ rfl) (needs.is_settled untouched _ rfl)
    intro own shown
    exact attached.settled _ own ⟨node, present, shown⟩
  rw [standing.input_path] at named
  have sound := standing.sound.grow grows
    (Graph.indexed_attach indexed (some (session.inputPath file)) none)
  have tidy := Graph.tidy_attach standing.tidy (some (session.inputPath file)) none
  exact ⟨⟨sound, tidy, attached⟩, grows.matures, node, present, named⟩

theorem Standing.load (standing : Standing files origin roots session)
    (untouched : origin.Untouched) (barren : origin.Barren files roots) {root : NodeId}
    {own : Option Path} (denotes : session.graph.Denotes root own)
    (needs : origin.Needs files roots own) {waves : Nat}
    (completed : (session.load .blocking files waves root).2 = .complete) :
    Standing files origin roots (session.load .blocking files waves root).1 ∧
      session.graph.Matures (session.load .blocking files waves root).1.graph ∧
      (session.load .blocking files waves root).1.graph.Holds own := by
  have sound := standing.sound.load .blocking waves root
  have tidy := tidy_load standing.sound standing.tidy completed
  have survives := survives_load standing.sound.indexed .blocking files waves root
  obtain ⟨old, present, named⟩ := denotes
  obtain ⟨new, there, outlasts, -⟩ := survives root old present
  have loaded := loaded_of_tidy tidy there (standing.sound.visited_load there)
  refine ⟨⟨sound, tidy, ?_⟩, survives.matures, root, new, there, outlasts.path.trans named, loaded⟩
  rw [load_eq] at completed ⊢
  apply accords_run_waves (standing.sound.enqueue root) _ untouched barren waves completed
  apply accords_enqueue standing.accords
  intro node shown
  rw [present] at shown
  cases shown
  rw [named]
  exact needs

theorem Standing.sources_eq (standing : Standing files origin roots session)
    (untouched : origin.Untouched) (present : session.graph.node? id = some node)
    (loaded : node.state = .loaded) (answered : origin.answer files node.path = .ok fetched) :
    (node.sources.map fun id => (session.graph.node? id).map (·.path)) =
      fetched.children.map fun child => some child.path := by
  have needs := standing.needs_of_loaded present loaded
  obtain ⟨same, said, -, named, -⟩ := (standing.accord present).landed loaded
  rw [answered] at said
  cases said
  cases carried : fetched.map with
  | none =>
      rw [carried] at named
      rcases standing.sound.resolved id node present loaded with ⟨-, bare⟩ | ⟨map, shown, -⟩
      · rw [bare, childless_of_answer answered carried]
        rfl
      · rw [named] at shown
        cases shown
  | some map =>
      rw [carried] at named
      rcases standing.sound.resolved id node present loaded with ⟨bare, -⟩ | ⟨own, shown, resolved⟩
      · rw [named] at bare
        cases bare
      · rw [named] at shown
        cases shown
        have placed := needs.is_settled untouched
        have listed : List.Forall₂ (session.graph.Plays [])
            fetched.children node.sources := by
          rw [children_of_answer untouched placed answered carried]
          exact resolved.sources
        have settled : ∀ child ∈ fetched.children, ∀ own, child.path = some own →
            own.IsSettled := fun child member =>
          (Needs.source needs answered member).is_settled untouched
        have spelled : List.Forall₂ (fun id child =>
            (session.graph.node? id).map (·.path) = some child.path)
            node.sources fetched.children := by
          apply List.Forall₂.flip
          refine (List.forall₂_and_left _ _).2 ⟨settled, listed⟩ |>.imp ?_
          rintro child source ⟨given, plays⟩
          exact plays.path_eq standing.accords.settled given
        rw [← List.forall₂_eq_eq_eq, List.forall₂_map_left_iff, List.forall₂_map_right_iff]
        exact spelled

theorem Finished.holds (finished : Finished files origin roots session)
    (untouched : origin.Untouched) {own : Option Path} (needs : origin.Needs files roots own) :
    session.graph.Holds own := by
  induction needs with
  | root member => exact finished.rooted _ member
  | @source parent fetched child needs answered member induction =>
      obtain ⟨id, node, present, rfl, loaded⟩ := induction
      have listed := finished.sources_eq untouched present loaded answered
      have member : some child.path ∈ fetched.children.map fun child => some child.path :=
        List.mem_map_of_mem member
      rw [← listed] at member
      obtain ⟨source, inside, shown⟩ := List.mem_map.1 member
      obtain ⟨new, there, named⟩ := Option.map_eq_some_iff.1 shown
      obtain ⟨other, found, visited⟩ := finished.sound.visited_of_source ⟨node, present, inside⟩
      rw [there] at found
      cases found
      exact ⟨source, new, there, named, loaded_of_tidy finished.tidy there visited⟩

/-- The lines of a loaded node are those of some text with the digest of its own. -/
theorem Standing.mappings_eq (standing : Standing files origin roots session)
    (present : session.graph.node? id = some node) (loaded : node.state = .loaded)
    (answered : origin.answer files node.path = .ok fetched) :
    (fetched.map = none → node.mappings = none) ∧
      ∀ map, fetched.map = some map → ∃ lines, node.mappings = some lines ∧
        session.graph.Decodes (DecodeCache.key map.mappings) lines := by
  obtain ⟨same, said, -, named, unread⟩ := (standing.accord present).landed loaded
  rw [answered] at said
  cases said
  constructor
  · intro bare
    rw [bare] at named
    exact unread named
  · intro map carried
    rw [carried] at named
    rcases standing.sound.resolved id node present loaded with ⟨bare, -⟩ | ⟨own, shown, resolved⟩
    · rw [named] at bare
      cases bare
    · rw [named] at shown
      cases shown
      exact resolved.mappings

theorem Standing.needed_of_has_text (standing : Standing files origin roots session)
    {text : String} (has : session.graph.HasText text) :
    text ∈ origin.neededTexts files roots := by
  obtain ⟨id, node, map, present, loaded, carried, same⟩ := has
  obtain ⟨fetched, answered, -, named, -⟩ := (standing.accord present).landed loaded
  rw [carried] at named
  obtain ⟨own, given, renamed⟩ := Option.map_eq_some_iff.1 named.symm
  refine ⟨node.path, fetched, own, standing.needs_of_loaded present loaded, answered, given, ?_⟩
  rw [← same, ← renamed]
  rfl

theorem Standing.decode_eq (standing : Standing files origin roots session)
    (apart : Set.InjOn DecodeCache.key (origin.neededTexts files roots)) {text : String}
    (needed : text ∈ origin.neededTexts files roots) {lines : Mappings}
    (decodes : session.graph.Decodes (DecodeCache.key text) lines) :
    Mappings.decode text = .ok lines := by
  obtain ⟨other, has, same, read⟩ := decodes
  rw [← apart (standing.needed_of_has_text has) needed same]
  exact read

theorem Finished.account_of_needs (finished : Finished files origin roots session)
    (untouched : origin.Untouched) {own : Path} (same : Path.Same own path)
    (needs : origin.Needs files roots (some own)) :
    ∃ fetched mappings, origin.answer files (some own) = .ok fetched ∧
      session.graph.account path =
        some ⟨some own, .loaded, fetched.content, fetched.map.map (·.named (some own)), mappings,
          fetched.children.map fun child => some child.path⟩ ∧
      (fetched.map = none → mappings = none) ∧
      ∀ map, fetched.map = some map → ∃ lines, mappings = some lines ∧
        session.graph.Decodes (DecodeCache.key map.mappings) lines := by
  obtain ⟨id, node, present, named, loaded⟩ := finished.holds untouched needs
  obtain ⟨fetched, answered, content, map, -⟩ := (finished.accord present).landed loaded
  obtain ⟨bare, read⟩ := finished.mappings_eq present loaded answered
  have there : node.isAt path = true := by
    rw [Node.isAt, named]
    exact decide_eq_true same
  refine ⟨fetched, node.mappings, named ▸ answered, ?_, bare, read⟩
  rw [finished.sound.indexed.account_eq present there,
    finished.sources_eq untouched present loaded answered, content, map, loaded, named]

theorem Standing.account_of_spare (standing : Standing files origin roots session)
    {own : Path} (same : Path.Same own path) (spare : ¬origin.Needs files roots (some own))
    {other : NodeId} (denotes : origin.graph.Denotes other (some own)) :
    session.graph.account path =
      some ⟨some own, .unvisited, (origin.seed (some own)).content,
        (origin.seed (some own)).map, none, []⟩ := by
  obtain ⟨node, present, named⟩ := standing.accords.kept other _ denotes
  have accord := standing.accord present
  have unvisited : node.state = .unvisited := by
    rcases accord.needed with needs | ⟨unvisited, -⟩
    · rw [named] at needs
      exact absurd needs spare
    · exact unvisited
  obtain ⟨content, map⟩ := accord.waits (by simp [Node.isPending, unvisited])
  have bare : node.sources = [] := by
    by_contra sources
    have loaded := standing.sound.bare other node present sources
    rw [unvisited] at loaded
    cases loaded
  have there : node.isAt path = true := by
    rw [Node.isAt, named]
    exact decide_eq_true same
  rw [standing.sound.indexed.account_eq present there, content, map, bare, unvisited,
    accord.unread (by simp [unvisited]), named]
  rfl

theorem Standing.account_of_neither (standing : Standing files origin roots session)
    (spare : ∀ own, Path.Same own path → ¬origin.Needs files roots (some own))
    (unknown : ∀ own, Path.Same own path → ∀ other, ¬origin.graph.Denotes other (some own)) :
    session.graph.account path = none := by
  cases found : session.graph.lookup path with
  | none =>
      rw [Graph.account, found]
      rfl
  | some id =>
      obtain ⟨own, ⟨node, present, named⟩, same⟩ :=
        (standing.sound.indexed.found path id).1 found
      rcases (standing.accord present).needed with needs | ⟨-, other, denotes⟩
      · rw [named] at needs
        exact absurd needs (spare own same)
      · rw [named] at denotes
        exact absurd denotes (unknown own same other)

/-- Two sessions with the same start that have loaded the same roots agree at every path. -/
theorem Finished.account_eq {other : Session} (first : Finished files origin roots session)
    (second : Finished files origin roots other) (untouched : origin.Untouched) (path : Path) :
    (other.graph.account path).map Account.unread =
        (session.graph.account path).map Account.unread ∧
      (Set.InjOn DecodeCache.key (origin.neededTexts files roots) →
        other.graph.account path = session.graph.account path) := by
  by_cases needed : ∃ own, Path.Same own path ∧ origin.Needs files roots (some own)
  · obtain ⟨own, same, needs⟩ := needed
    obtain ⟨fetched, lines, answered, here, bare, read⟩ :=
      first.account_of_needs untouched same needs
    obtain ⟨alike, others, again, there, unread, reread⟩ :=
      second.account_of_needs untouched same needs
    rw [answered] at again
    cases again
    rw [here, there]
    refine ⟨rfl, ?_⟩
    intro apart
    cases carried : fetched.map with
    | none => rw [bare carried, unread carried]
    | some map =>
        have member : map.mappings ∈ origin.neededTexts files roots :=
          ⟨some own, fetched, map, needs, answered, carried, rfl⟩
        obtain ⟨known, rfl, decodes⟩ := read map carried
        obtain ⟨seen, rfl, decoded⟩ := reread map carried
        have equal := first.decode_eq apart member decodes
        rw [second.decode_eq apart member decoded] at equal
        cases equal
        rfl
  · have spare (own : Path) (same : Path.Same own path) :
        ¬origin.Needs files roots (some own) := fun needs => needed ⟨own, same, needs⟩
    by_cases known : ∃ own, Path.Same own path ∧ ∃ id, origin.graph.Denotes id (some own)
    · obtain ⟨own, same, id, denotes⟩ := known
      rw [first.account_of_spare same (spare own same) denotes,
        second.account_of_spare same (spare own same) denotes]
      exact ⟨rfl, fun _ => rfl⟩
    · have unknown (own : Path) (same : Path.Same own path) (id : NodeId) :
          ¬origin.graph.Denotes id (some own) := fun denotes => known ⟨own, same, id, denotes⟩
      rw [first.account_of_neither spare unknown, second.account_of_neither spare unknown]
      exact ⟨rfl, fun _ => rfl⟩

end Session

end MapChain
