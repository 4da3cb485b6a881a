import MapChain.Proofs.Session.Origins

/-!
Nodes that are what the start of a session says of their paths. Where no map carries content for
its sources, nothing that happens on the way to a path can add to that. Main statement: all nodes
are so in the middle of a load as between two of them, and only paths that the roots need are
loaded.
-/

set_option autoImplicit false

namespace MapChain

/-- A node is what the start of a session says of its path. -/
structure Node.Accords (files : FileSystem) (origin : Session) (roots : List Path)
    (flight : List Request) (id : NodeId) (node : Node) : Prop where
  needed : origin.Needs files roots node.path ∨
    node.state = .unvisited ∧ ∃ other, origin.graph.Denotes other node.path
  waits : node.isPending = true → node.content = (origin.seed node.path).content ∧
    node.map = (origin.seed node.path).map
  flies : node.state = .fetching → ∀ request ∈ flight, request.id = id →
    request = (origin.seed node.path).ask id
  unread : node.state ≠ .loaded → node.mappings = none
  landed : node.state = .loaded → ∃ fetched, origin.answer files node.path = .ok fetched ∧
    node.content = fetched.content ∧ node.map = fetched.map.map (·.named node.path) ∧
    (node.map = none → node.mappings = none)

/-- All nodes but some that are being worked on are what the start says. -/
structure Graph.Accords (files : FileSystem) (origin : Session) (roots : List Path)
    (flight : List Request) (exempt : List NodeId) (graph : Graph) : Prop where
  settled : graph.Settled
  kept : ∀ id path, origin.graph.Denotes id path → graph.Denotes id path
  nodes : ∀ id node, graph.node? id = some node → id ∉ exempt →
    node.Accords files origin roots flight id

variable {files : FileSystem} {origin session : Session} {roots : List Path} {graph : Graph}
  {flight : List Request} {exempt : List NodeId} {id : NodeId} {node : Node}
  {path : Option Path} {request : Request} {fetched : Fetched}

namespace Node

theorem Awaits.eq_of_state {old new : Node} (awaits : old.Awaits (fun _ _ => False) new)
    (state : new.state = old.state) : new = old := by
  have content : new.content = old.content := by
    rcases awaits.content with same | ⟨-, -, text, -, never⟩
    · exact same
    · exact never.elim
  obtain ⟨path, map, mappings, sources, -, -⟩ := awaits
  cases old
  cases new
  simp_all

theorem path_of_is_at {own : Path} (there : node.isAt own = true) (settled : own.IsSettled)
    (given : ∀ spelled, node.path = some spelled → spelled.IsSettled) : node.path = some own := by
  obtain ⟨spelled, named, alike⟩ := (Option.any_eq_true _ _).1 there
  have same : Path.Same spelled own := of_decide_eq_true alike
  rw [named, ← (given spelled named).fixed, same.normalize, settled.fixed]

theorem Accords.land {landing : List Request}
    (accords : node.Accords files origin roots flight id) (fewer : landing ⊆ flight) :
    node.Accords files origin roots landing id where
  needed := accords.needed
  waits := accords.waits
  flies := fun fetching request member => accords.flies fetching request (fewer member)
  unread := accords.unread
  landed := accords.landed

theorem accords_fresh (needs : origin.Needs files roots path)
    (absent : ∀ own, path = some own → origin.graph.lookup own = none) :
    (fresh path none).Accords files origin roots flight id where
  needed := Or.inl needs
  waits := by
    intro _
    cases path with
    | none => exact ⟨rfl, rfl⟩
    | some own =>
        rw [fresh, Session.seed_of_absent (absent own rfl)]
        exact ⟨rfl, rfl⟩
  flies := by
    intro fetching
    cases fetching
  unread := fun _ => rfl
  landed := by
    intro loaded
    cases loaded

theorem Accords.queue (accords : node.Accords files origin roots flight id)
    (unvisited : node.state = .unvisited) (needs : origin.Needs files roots node.path) :
    ({ node with state := .queued } : Node).Accords files origin roots flight id where
  needed := Or.inl needs
  waits := fun _ => accords.waits (by simp [isPending, unvisited])
  flies := by
    intro fetching
    cases fetching
  unread := fun _ => accords.unread (by simp [unvisited])
  landed := by
    intro loaded
    cases loaded

theorem accords_of_landed (needs : origin.Needs files roots node.path)
    (loaded : node.state = .loaded) (answered : origin.answer files node.path = .ok fetched)
    (content : node.content = fetched.content)
    (map : node.map = fetched.map.map (·.named node.path))
    (bare : node.map = none → node.mappings = none) :
    node.Accords files origin roots flight id where
  needed := Or.inl needs
  waits := by
    intro pending
    simp [isPending, loaded] at pending
  flies := by
    intro fetching
    rw [loaded] at fetching
    cases fetching
  unread := fun unloaded => absurd loaded unloaded
  landed := fun _ => ⟨fetched, answered, content, map, bare⟩

end Node

namespace Graph

theorem Accords.attach (accords : graph.Accords files origin roots flight exempt)
    (untouched : origin.Untouched) (indexed : graph.Indexed)
    (needs : origin.Needs files roots path) :
    (graph.attach path none).1.Accords files origin roots flight exempt := by
  have grows := grows_attach indexed path none
  have still := indexed_attach indexed path none
  have kept (other : NodeId) (own : Option Path) (denotes : origin.graph.Denotes other own) :
      (graph.attach path none).1.Denotes other own :=
    grows.keeps.denotes other own (accords.kept other own denotes)
  refine ⟨accords.settled.attach none (needs.is_settled untouched), kept, ?_⟩
  intro id node present free
  have ways : (∃ old, graph.node? id = some old ∧ old.Awaits (fun _ _ => False) node ∧
      node.state = old.state) ∨
        graph.node? id = none ∧ id = (graph.attach path none).2 ∧ node = .fresh path none :=
    node_of_attach indexed (by simp) present
  rcases ways with ⟨old, before, awaits, state⟩ | ⟨absent, -, rfl⟩
  · rw [awaits.eq_of_state state]
    exact accords.nodes id old before free
  · apply Node.accords_fresh needs
    intro own named
    cases found : origin.graph.lookup own with
    | none => rfl
    | some other =>
        -- What the start knows is there already, so it would not have been made anew.
        obtain ⟨spelled, denotes, same⟩ := (untouched.indexed.found own other).1 found
        have there := (still.found own other).2 ⟨spelled, kept other _ denotes, same⟩
        rw [(still.found own id).2 ⟨own, ⟨_, present, named⟩, rfl⟩] at there
        cases there
        obtain ⟨old, before, -⟩ := accords.kept id _ denotes
        rw [absent] at before
        cases before

theorem Accords.queue (accords : graph.Accords files origin roots flight exempt)
    (present : graph.node? id = some node) (unvisited : node.state = .unvisited)
    (needs : origin.Needs files roots node.path) :
    (graph.modify id fun node => { node with state := .queued }).Accords files origin roots flight
      exempt where
  settled := accords.settled.modify fun _ => rfl
  kept := by
    intro other path denotes
    refine (denotes_modify_iff ?_ other).2 (accords.kept other path denotes)
    exact fun _ => rfl
  nodes := by
    intro other new there free
    rcases node_modify_cases there with ⟨-, before⟩ | ⟨rfl, old, before, rfl⟩
    · exact accords.nodes other new before free
    · rw [present] at before
      cases before
      exact (accords.nodes other node present free).queue unvisited needs

theorem Accords.discharge (accords : graph.Accords files origin roots flight [id])
    (here : ∀ node, graph.node? id = some node → node.Accords files origin roots flight id) :
    graph.Accords files origin roots flight [] where
  settled := accords.settled
  kept := accords.kept
  nodes := by
    intro other node present _
    by_cases same : other = id
    · rw [same] at present ⊢
      exact here node present
    · exact accords.nodes other node present (by simpa using same)

theorem Accords.land_request
    (accords : graph.Accords files origin roots (request :: flight) []) (fetched : Fetched) :
    (graph.land fetched).Accords files origin roots flight [fetched.id] where
  settled := accords.settled.modify fun _ => rfl
  kept := by
    intro other path denotes
    refine (denotes_modify_iff ?_ other).2 (accords.kept other path denotes)
    exact fun _ => rfl
  nodes := by
    intro other node present elsewhere
    rcases node_modify_cases present with ⟨-, before⟩ | ⟨same, -⟩
    · exact (accords.nodes other node before (by simp)).land (List.subset_cons_self request flight)
    · rw [same] at elsewhere
      simp at elsewhere

theorem Accords.equip (accords : graph.Accords files origin roots flight [id]) (map : SourceMap)
    (lines : Mappings) (sources : List NodeId) :
    (graph.equip id map lines sources).Accords files origin roots flight [id] where
  settled := accords.settled.modify fun _ => rfl
  kept := by
    intro other path denotes
    exact (denotes_equip_iff map lines other).2 (accords.kept other path denotes)
  nodes := by
    intro other node present elsewhere
    rcases node_modify_cases present with ⟨-, before⟩ | ⟨same, -⟩
    · exact accords.nodes other node before elsewhere
    · rw [same] at elsewhere
      simp at elsewhere

theorem Accords.needs_of_fetching (accords : graph.Accords files origin roots flight [])
    (present : graph.node? id = some node) (fetching : node.state = .fetching) :
    origin.Needs files roots node.path := by
  rcases (accords.nodes id node present (by simp)).needed with needs | ⟨unvisited, -⟩
  · exact needs
  · rw [fetching] at unvisited
    cases unvisited

/-- A node that is being fetched gets what the start says of its path. -/
theorem Accords.answer_of_flying
    (accords : graph.Accords files origin roots (request :: flight) [])
    (present : graph.node? request.id = some node) (fetching : node.state = .fetching)
    (answered : request.fetch files origin.directory origin.roots = .ok fetched) :
    origin.answer files node.path = .ok { fetched with id := 0 } := by
  have here := accords.nodes request.id node present (by simp)
  rw [here.flies fetching request List.mem_cons_self rfl] at answered
  exact Session.answer_of_fetch answered

end Graph

namespace Session

variable {child : Child} {children : List Child}

theorem accords_attach_child (accords : graph.Accords files origin roots flight exempt)
    (untouched : origin.Untouched) (indexed : graph.Indexed)
    (needs : origin.Needs files roots child.path) (bare : child.content = none) :
    (attachChild graph child).1.Accords files origin roots flight exempt := by
  have attached := accords.attach untouched indexed needs
  obtain ⟨node, present, nameless, spelled⟩ := Graph.node_attach indexed child.path child.content
  obtain ⟨same, there, ways⟩ := attach_child_cases indexed child
  rw [present] at there
  cases there
  rw [bare] at present ways nameless
  rcases ways with ⟨unvisited, same⟩ | ⟨-, same⟩
  · rw [same]
    apply attached.queue present unvisited
    have own : node.path = child.path := by
      cases named : child.path with
      | none =>
          rw [nameless named]
          rfl
      | some path =>
          apply Node.path_of_is_at (spelled path named) (needs.is_settled untouched path named)
          intro spelled shown
          exact attached.settled _ spelled ⟨node, present, shown⟩
    rw [own]
    exact needs
  · rw [same]
    exact attached

theorem accords_attach_children (accords : graph.Accords files origin roots flight exempt)
    (untouched : origin.Untouched) (indexed : graph.Indexed)
    (needs : ∀ child ∈ children, origin.Needs files roots child.path)
    (bare : ∀ child ∈ children, child.content = none) :
    (attachChildren graph children).1.Accords files origin roots flight exempt := by
  induction children generalizing graph with
  | nil => exact accords
  | cons child children induction =>
      rw [List.forall_mem_cons] at needs bare
      exact induction (accords_attach_child accords untouched indexed needs.1 bare.1)
        (indexed_attach_child indexed child) needs.2 bare.2

theorem accords_enqueue (accords : session.graph.Accords files origin roots flight exempt)
    {root : NodeId}
    (needs : ∀ node, session.graph.node? root = some node → origin.Needs files roots node.path) :
    (session.enqueue root).1.graph.Accords files origin roots flight exempt := by
  rcases enqueue_cases session root with ⟨idle, -⟩ | ⟨node, present, unvisited, queued⟩
  · rw [idle]
    exact accords
  · rw [queued]
    exact accords.queue present unvisited (needs node present)

theorem accords_begin_fetch (accords : session.graph.Accords files origin roots flight [])
    (untouched : origin.Untouched) (flying : session.graph.Flying flight) (id : NodeId) :
    (session.beginFetch id).1.graph.Accords files origin roots
      (flight ++ (session.beginFetch id).2.toList) [] := by
  rcases begin_fetch_cases session id with ⟨idle, -⟩ | ⟨node, present, queued, handed⟩
  · rw [idle, Option.toList_none, List.append_nil]
    exact accords
  · have before := accords.nodes id node present (by simp)
    obtain ⟨content, map⟩ := before.waits (by simp [Node.isPending, queued])
    have own : (origin.seed node.path).path = node.path := by
      apply untouched.path_seed
      intro spelled named
      exact accords.settled id spelled ⟨node, present, named⟩
    rw [handed, Option.toList_some]
    refine ⟨accords.settled.modify fun _ => rfl, ?_, ?_⟩
    · intro other path denotes
      refine (Graph.denotes_modify_iff ?_ other).2 (accords.kept other path denotes)
      exact fun _ => rfl
    · intro other new there free
      rcases Graph.node_modify_cases there with ⟨different, old⟩ | ⟨rfl, old, shown, rfl⟩
      · have still := accords.nodes other new old free
        refine ⟨still.needed, still.waits, ?_, still.unread, still.landed⟩
        intro fetching request member target
        rcases List.mem_append.1 member with early | last
        · exact still.flies fetching request early target
        · rw [List.mem_singleton] at last
          rw [last] at target
          exact absurd target.symm different
      · rw [present] at shown
        cases shown
        refine ⟨?_, ?_, ?_, ?_, ?_⟩
        · rcases before.needed with needs | ⟨unvisited, -⟩
          · exact Or.inl needs
          · rw [queued] at unvisited
            cases unvisited
        · intro pending
          cases pending
        · intro _ request member target
          rcases List.mem_append.1 member with early | last
          · exact absurd target (ne_of_flying flying present queued early)
          · rw [List.mem_singleton.1 last, Node.ask, ← content, ← map, own]
        · intro _
          exact before.unread (by simp [queued])
        · intro loaded
          cases loaded

theorem accords_begin_wave (accords : session.graph.Accords files origin roots flight [])
    (untouched : origin.Untouched) (flying : session.graph.Flying flight) (wave : List NodeId) :
    (session.beginWave wave).1.graph.Accords files origin roots
      (flight ++ (session.beginWave wave).2) [] := by
  induction wave generalizing session flight with
  | nil =>
      simp only [beginWave, List.append_nil]
      exact accords
  | cons id wave induction =>
      have rest := induction (accords_begin_fetch accords untouched flying id)
        (flying_begin_fetch flying id)
      rw [List.append_assoc] at rest
      exact rest

/-- A node is folded in as the start says of its path, unless its text cannot be decoded. -/
theorem accords_integrate {pending : List NodeId}
    (sound : session.Sound files origin.directory origin.roots (request :: flight))
    (accords : session.graph.Accords files origin roots (request :: flight) [])
    (untouched : origin.Untouched) (barren : origin.Barren files roots)
    (answered : request.fetch files origin.directory origin.roots = .ok fetched)
    (folded : (session.integrate fetched).2 = .ok pending) :
    (session.integrate fetched).1.graph.Accords files origin roots flight [] := by
  obtain ⟨target, -, -⟩ := Request.of_fetch answered
  obtain ⟨node, present, fetching, -, bare⟩ := sound.flying.waits request List.mem_cons_self
  have needs := accords.needs_of_fetching present fetching
  have said := accords.answer_of_flying present fetching answered
  have unread := (accords.nodes request.id node present (by simp)).unread (by simp [fetching])
  have landed := accords.land_request fetched
  rw [← target] at present
  rcases integrate_cases session present with
    ⟨given, same⟩ | ⟨map, fault, -, -, same⟩ | ⟨map, lines, given, -, same⟩
  · rw [same]
    apply landed.discharge
    intro new there
    rw [Graph.land, Graph.node_modify_self, present] at there
    cases there
    refine Node.accords_of_landed needs rfl said rfl ?_ fun _ => unread
    change node.map = fetched.map.map _
    rw [given, bare]
    rfl
  · rw [same] at folded
    cases folded
  · rw [same]
    have attached := accords_attach_children landed untouched (sound.indexed.land fetched)
      (fun child member => .source needs said member)
      (fun child member => barren.content untouched needs said member)
    apply Graph.Accords.discharge
    · exact attached.equip _ lines _
    · intro new there
      rw [node_equip sound.indexed present] at there
      cases there
      refine Node.accords_of_landed needs rfl said rfl ?_ ?_
      · change some _ = fetched.map.map _
        rw [given]
        rfl
      · intro none
        cases none

theorem accords_integrate_all {requests : List Request} {next : List NodeId}
    (sound : session.Sound files origin.directory origin.roots requests)
    (accords : session.graph.Accords files origin roots requests [])
    (untouched : origin.Untouched) (barren : origin.Barren files roots)
    (completed : (session.integrateAll
      (requests.map (·.fetch files origin.directory origin.roots))).2 = .ok next) :
    (session.integrateAll
      (requests.map (·.fetch files origin.directory origin.roots))).1.graph.Accords files origin
        roots [] [] := by
  induction requests generalizing session next with
  | nil => exact accords
  | cons request requests induction =>
      simp only [List.map_cons] at completed ⊢
      cases answered : request.fetch files origin.directory origin.roots with
      | error fault =>
          rw [answered] at completed
          cases completed
      | ok fetched =>
          have still := sound.integrate answered
          have folded (pending : List NodeId)
              (ended : (session.integrate fetched).2 = .ok pending) :=
            accords_integrate sound accords untouched barren answered ended
          rw [answered] at completed
          simp only [integrateAll] at completed ⊢
          generalize session.integrate fetched = integrated at completed still folded ⊢
          obtain ⟨between, fault | pending⟩ := integrated
          · cases completed
          · obtain ⟨last, ended, -⟩ := of_collect completed
            exact induction still (folded pending rfl) ended

theorem accords_run_waves (sound : session.Sound files origin.directory origin.roots [])
    (accords : session.graph.Accords files origin roots [] []) (untouched : origin.Untouched)
    (barren : origin.Barren files roots) (waves : Nat) {wave : List NodeId}
    (completed : (runWaves (advanceConcurrent files) waves session wave).2 = .complete) :
    (runWaves (advanceConcurrent files) waves session wave).1.graph.Accords files origin roots
      [] [] := by
  induction waves generalizing session wave with
  | zero => cases wave <;> exact accords
  | succ waves induction =>
      cases wave with
      | nil => exact accords
      | cons id wave =>
          have begun := sound.begin_wave (id :: wave)
          have handed := accords_begin_wave accords untouched sound.flying (id :: wave)
          rw [List.nil_append] at begun handed
          have folded (next : List NodeId)
              (ended : ((session.beginWave (id :: wave)).1.integrateAll
                ((session.beginWave (id :: wave)).2.map
                  (·.fetch files origin.directory origin.roots))).2 = .ok next) :=
            accords_integrate_all begun handed untouched barren ended
          have still := begun.integrate_all.1
          simp only [runWaves, advance_concurrent_eq, begun.unmoved, begun.rooted] at completed ⊢
          generalize (session.beginWave (id :: wave)).1.integrateAll
            ((session.beginWave (id :: wave)).2.map
              (·.fetch files origin.directory origin.roots)) = ended at completed folded still ⊢
          obtain ⟨last, fault | next⟩ := ended
          · cases completed
          · exact induction still (folded next rfl) completed

end Session

end MapChain
