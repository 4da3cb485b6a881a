import MapChain.Proofs.Mappings.Remembering
import MapChain.Proofs.Session.Fetching

/-!
Folding a fetched node into the graph. Main statement: the answer to a request leaves a sound
session, whatever the answer is.
-/

set_option autoImplicit false

namespace MapChain

variable {files : FileSystem} {directory : Path} {roots : List Path} {flight : List Request}
  {graph : Graph} {session : Session} {fetched : Fetched} {request : Request}

theorem Request.of_fetch (answered : request.fetch files directory roots = .ok fetched) :
    fetched.id = request.id ∧ fetched.content = request.fetchContent files ∧
      ∀ map, fetched.map = some map →
        fetched.children = map.children files directory roots request.path := by
  unfold fetch at answered
  cases found : request.fetchMap files directory (request.fetchContent files) with
  | error fault =>
      simp only [found] at answered
      cases answered
  | ok given =>
      simp only [found] at answered
      cases answered
      refine ⟨rfl, rfl, ?_⟩
      intro map same
      have shown : given = some map := same
      rw [shown]
      rfl

namespace Graph

def land (graph : Graph) (fetched : Fetched) : Graph :=
  graph.modify fetched.id fun node => { node with content := fetched.content, state := .loaded }

theorem Indexed.land (indexed : graph.Indexed) (fetched : Fetched) :
    (graph.land fetched).Indexed := indexed_modify indexed fun _ => rfl

def equip (graph : Graph) (id : NodeId) (map : SourceMap) (mappings : Mappings)
    (sources : List NodeId) : Graph :=
  graph.modify id fun node =>
    { node with map := some map, mappings := some mappings, sources := sources }

theorem advances_land_request (flying : graph.Flying (request :: flight))
    (answered : request.fetch files directory roots = .ok fetched) :
    Advances (request :: flight) flight graph (graph.land fetched) := by
  obtain ⟨target, content, -⟩ := Request.of_fetch answered
  obtain ⟨node, present, fetching, path, -⟩ := flying.waits request List.mem_cons_self
  rw [← target] at present
  apply advances_modify
  · intro old there
    rw [present] at there
    cases there
    refine ⟨rfl, ?_, ?_, ?_⟩
    · intro loaded
      rw [fetching] at loaded
      cases loaded
    · intro visited unvisited
      cases unvisited
    · intro carried bears
      have nameless : request.path = none := path.symm.trans bears.nameless
      have given := bears.handed fetching request List.mem_cons_self target.symm
      refine ⟨bears.nameless, ?_, ?_⟩
      · intro waiting
        cases waiting
      · intro settled
        rw [content, Request.fetchContent, nameless, given]
        cases carried <;> rfl
  · intro other old different there
    refine ⟨rfl, fun _ => rfl, fun visited => visited, ?_⟩
    intro carried bears
    exact bears.land (List.subset_cons_self request flight)

theorem flying_modify {id : NodeId} {change : Node → Node} (flying : graph.Flying flight)
    (apart : id ∉ flight.map (·.id)) : (graph.modify id change).Flying flight where
  once := flying.once
  waits := by
    intro request member
    obtain ⟨node, present, waits⟩ := flying.waits request member
    refine ⟨node, ?_, waits⟩
    rw [node_modify_of_ne graph change ?_]
    · exact present
    · intro same
      rw [← same] at apart
      exact apart (List.mem_map_of_mem member)

theorem Flying.tail (flying : graph.Flying (request :: flight)) : graph.Flying flight where
  once := (List.nodup_cons.1 flying.once).2
  waits := fun other member => flying.waits other (List.mem_cons_of_mem request member)

theorem Flying.apart (flying : graph.Flying (request :: flight)) :
    request.id ∉ flight.map (·.id) := (List.nodup_cons.1 flying.once).1

theorem Advances.equip {landing : List Request} {later : Graph} {id : NodeId}
    (advances : Advances flight landing graph later) (map : SourceMap) (mappings : Mappings)
    (sources : List NodeId)
    (unloaded : ∀ node, graph.node? id = some node → node.state ≠ .loaded) :
    Advances flight landing graph (later.equip id map mappings sources) := by
  intro other old present
  obtain ⟨new, there, step⟩ := advances other old present
  by_cases same : other = id
  · rw [same] at present there ⊢
    refine ⟨{ new with map := some map, mappings := some mappings, sources := sources }, ?_,
      step.path, ?_, step.visited, ?_⟩
    · rw [Graph.equip, node_modify_self, there]
      rfl
    · intro loaded
      exact absurd loaded (unloaded old present)
    · intro content bears
      rw [same] at step
      have still := step.bears content bears
      exact ⟨still.nameless, still.handed, still.kept⟩
  · refine ⟨new, ?_, step⟩
    rw [Graph.equip, node_modify_of_ne later _ same]
    exact there

theorem Plays.equip {child : Child} {id other : NodeId} (plays : graph.Plays flight child other)
    (map : SourceMap) (mappings : Mappings) (sources : List NodeId) :
    (graph.equip id map mappings sources).Plays flight child other := by
  obtain ⟨node, present, visited, fits⟩ := plays
  by_cases same : other = id
  · rw [same] at present fits ⊢
    refine ⟨{ node with map := some map, mappings := some mappings, sources := sources }, ?_,
      visited, ?_⟩
    · rw [Graph.equip, node_modify_self, present]
      rfl
    · cases named : child.path with
      | none =>
          rw [Node.fits_nameless named] at fits ⊢
          exact ⟨fits.nameless, fits.handed, fits.kept⟩
      | some path =>
          rw [Node.fits_named named] at fits ⊢
          exact fits
  · refine ⟨node, ?_, visited, fits⟩
    rw [Graph.equip, node_modify_of_ne graph _ same]
    exact present

end Graph

namespace Session

/-- The three ends of folding in a node: it has no map, one that cannot be read, or one that gives
it sources. -/
theorem integrate_cases (session : Session) {node : Node}
    (present : session.graph.node? fetched.id = some node) :
    (fetched.map = none ∧
        session.integrate fetched =
          ({ session with graph := session.graph.land fetched }, .ok [])) ∨
      (∃ map fault, fetched.map = some map ∧
        (session.cache.decode map.mappings).2 = .error fault ∧
        session.integrate fetched =
          ({ session with graph := session.graph.land fetched },
            .error (.malformedMapping (some (originLabel node.path)) fault))) ∨
      ∃ map lines, fetched.map = some map ∧
        (session.cache.decode map.mappings).2 = .ok lines ∧
        session.integrate fetched =
          ({ session with
              cache := (session.cache.decode map.mappings).1
              graph := (attachChildren (session.graph.land fetched) fetched.children).1.equip
                fetched.id { map with file := (node.path.map Path.slash).or map.file } lines
                (attachChildren (session.graph.land fetched) fetched.children).2.1 },
            .ok (attachChildren (session.graph.land fetched) fetched.children).2.2) := by
  cases given : fetched.map with
  | none => exact Or.inl ⟨rfl, by simp [integrate, present, given, Graph.land]⟩
  | some map =>
      cases read : (session.cache.decode map.mappings).2 with
      | error fault =>
          have unchanged := DecodeCache.decode_failed read
          refine Or.inr (Or.inl ⟨map, fault, rfl, read, ?_⟩)
          simp [integrate, present, given, read, unchanged, Graph.land]
      | ok lines =>
          refine Or.inr (Or.inr ⟨map, lines, rfl, read, ?_⟩)
          simp [integrate, present, given, read, resolveNode, Graph.land, Graph.equip]

variable {node : Node}

theorem Sound.land_request (sound : session.Sound files directory roots (request :: flight))
    (answered : request.fetch files directory roots = .ok fetched) :
    ({ session with graph := session.graph.land fetched } : Session).Sound files directory roots
      flight := by
  obtain ⟨target, -, -⟩ := Request.of_fetch answered
  obtain ⟨node, present, fetching, -, bare⟩ := sound.flying.waits request List.mem_cons_self
  apply sound.step
  · rfl
  · rfl
  · exact Graph.advances_land_request sound.flying answered
  · exact Graph.indexed_modify sound.indexed fun _ => rfl
  · apply Graph.flying_modify sound.flying.tail
    rw [target]
    exact sound.flying.apart
  · intro other new there settled
    rcases Graph.node_modify_cases there with ⟨-, before⟩ | ⟨rfl, old, before, rfl⟩
    · exact Or.inl before
    · rw [target, present] at before
      cases before
      refine Or.inr ⟨rfl, Or.inl ⟨bare, ?_⟩⟩
      by_contra sources
      have loaded := sound.bare request.id node present sources
      rw [fetching] at loaded
      cases loaded
  · intro digest lines member
    exact Or.inl member

theorem advances_integrate (sound : session.Sound files directory roots (request :: flight))
    (answered : request.fetch files directory roots = .ok fetched) :
    Graph.Advances (request :: flight) flight session.graph
      (session.integrate fetched).1.graph := by
  obtain ⟨target, -, -⟩ := Request.of_fetch answered
  obtain ⟨node, present, fetching, -, -⟩ := sound.flying.waits request List.mem_cons_self
  have landing := Graph.advances_land_request sound.flying answered
  rw [← target] at present
  rcases integrate_cases session present with
    ⟨-, same⟩ | ⟨map, fault, -, -, same⟩ | ⟨map, lines, -, -, same⟩
  · rw [same]
    exact landing
  · rw [same]
    exact landing
  · rw [same]
    have growing := grows_attach_children (sound.indexed.land fetched) fetched.children
    apply (landing.trans (growing.advances flight)).equip
    intro old there
    rw [present] at there
    cases there
    simp [fetching]

theorem node_equip {node : Node} (indexed : session.graph.Indexed)
    (present : session.graph.node? fetched.id = some node) (children : List Child)
    (map : SourceMap) (lines : Mappings) (sources : List NodeId) :
    ((attachChildren (session.graph.land fetched) children).1.equip fetched.id map lines
        sources).node? fetched.id =
      some ⟨node.path, fetched.content, some map, some lines, sources, .loaded⟩ := by
  have landed : (session.graph.land fetched).node? fetched.id =
      some { node with content := fetched.content, state := .loaded } := by
    rw [Graph.land, Graph.node_modify_self, present]
    rfl
  have growing := grows_attach_children (indexed.land fetched) children
  obtain ⟨new, there, persists⟩ := growing.persists fetched.id _ landed
  rw [persists.loaded rfl] at there
  rw [Graph.equip, Graph.node_modify_self, there]
  rfl

/-- Whatever is settled beside the fetched node has been so before. -/
theorem node_before_equip {children : List Child} {map : SourceMap} {lines : Mappings}
    {sources : List NodeId} {other : NodeId} {node : Node}
    (landed : ({ session with graph := session.graph.land fetched } : Session).Sound files
      directory roots flight)
    (elsewhere : other ≠ fetched.id)
    (present : ((attachChildren (session.graph.land fetched) children).1.equip fetched.id map lines
      sources).node? other = some node)
    (settled : node.state = .loaded ∨ node.sources ≠ []) :
    session.graph.node? other = some node := by
  rw [Graph.equip, Graph.node_modify_of_ne _ _ elsewhere] at present
  have growing := grows_attach_children landed.indexed children
  have before := growing.of_settled landed.bare present settled
  rw [Graph.land, Graph.node_modify_of_ne session.graph _ elsewhere] at before
  exact before

theorem Sound.integrate (sound : session.Sound files directory roots (request :: flight))
    (answered : request.fetch files directory roots = .ok fetched) :
    (session.integrate fetched).1.Sound files directory roots flight := by
  obtain ⟨target, -, children⟩ := Request.of_fetch answered
  obtain ⟨node, present, fetching, path, -⟩ := sound.flying.waits request List.mem_cons_self
  have advances := advances_integrate sound answered
  have landed := sound.land_request answered
  rw [← target] at present
  rcases integrate_cases session present with
    ⟨-, same⟩ | ⟨map, fault, -, -, same⟩ | ⟨map, lines, given, read, same⟩
  · rw [same]
    exact landed
  · rw [same]
    exact landed
  · rw [same] at advances ⊢
    have growing := grows_attach_children landed.indexed fetched.children
    have equipped := node_equip sound.indexed present fetched.children
      { map with file := (node.path.map Path.slash).or map.file } lines
      (attachChildren (session.graph.land fetched) fetched.children).2.1
    have carried : (session.integrate fetched).1.graph.HasText map.mappings := by
      rw [same]
      exact ⟨fetched.id, _, _, equipped, rfl, rfl, rfl⟩
    rw [same] at carried
    apply sound.step
    · rfl
    · rfl
    · exact advances
    · apply Graph.indexed_modify
      · exact indexed_attach_children landed.indexed fetched.children
      · exact fun _ => rfl
    · apply Graph.flying_modify (landed.flying.grow growing)
      rw [target]
      exact sound.flying.apart
    · intro other new there settled
      by_cases here : other = fetched.id
      · rw [here, equipped] at there
        cases there
        refine Or.inr ⟨rfl, Or.inr ⟨_, rfl, ?_, ⟨lines, rfl, ?_⟩, ?_⟩⟩
        · intro own shown
          have known : node.path = some own := shown
          rw [known]
          rfl
        · rcases DecodeCache.of_decode read with remembered | fresh
          · exact (sound.remembered _ lines remembered).advance advances
          · exact ⟨map.mappings, carried, rfl, fresh⟩
        · have plays :=
            plays_attach_children landed.indexed fetched.children flight
          rw [children map given, ← path] at plays ⊢
          exact plays.imp fun _ _ fits => fits.equip _ lines _
      · exact Or.inl (node_before_equip landed here there settled)
    · intro digest remembered member
      rcases DecodeCache.of_mem_decode member with old | ⟨rfl, fresh⟩
      · exact Or.inl old
      · exact Or.inr ⟨map.mappings, carried, rfl, fresh⟩

theorem tidy_integrate {queue waiting pending : List NodeId} (indexed : session.graph.Indexed)
    (tidy : session.graph.Tidy queue (fetched.id :: waiting))
    (folded : (session.integrate fetched).2 = .ok pending) :
    (session.integrate fetched).1.graph.Tidy (queue ++ pending) waiting := by
  have landed : (session.graph.land fetched).Tidy queue waiting := by
    constructor
    · intro other new there queued
      rcases Graph.node_modify_cases there with ⟨-, before⟩ | ⟨-, old, -, rfl⟩
      · exact tidy.queued other new before queued
      · cases queued
    · intro other new there fetching
      rcases Graph.node_modify_cases there with ⟨different, before⟩ | ⟨-, old, -, rfl⟩
      · exact List.mem_of_ne_of_mem different (tidy.fetching other new before fetching)
      · cases fetching
  cases present : session.graph.node? fetched.id with
  | none =>
      simp only [Session.integrate, present] at folded ⊢
      cases folded
      refine ⟨fun other new there queued => List.mem_append_left _ ?_, ?_⟩
      · exact tidy.queued other new there queued
      · intro other new there fetching
        apply List.mem_of_ne_of_mem _ (tidy.fetching other new there fetching)
        intro same
        rw [same, present] at there
        cases there
  | some node =>
      rcases integrate_cases session present with
        ⟨-, same⟩ | ⟨map, fault, -, -, same⟩ | ⟨map, lines, -, -, same⟩
      · rw [same] at folded ⊢
        cases folded
        exact landed.mono (List.subset_append_left queue []) (List.Subset.refl waiting)
      · rw [same] at folded
        cases folded
      · rw [same] at folded ⊢
        cases folded
        refine Graph.tidy_modify ?_ (fun _ ↦ rfl)
        exact tidy_attach_children (indexed.land fetched) landed fetched.children

end Session

end MapChain
