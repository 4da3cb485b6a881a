import MapChain.Proofs.Session.Attaching

/-!
What holds of a session at every moment, in the middle of a load as between two of them. Main
statement: a step that only adds resolved nodes keeps a session sound.
-/

set_option autoImplicit false

namespace MapChain

variable {files : FileSystem} {directory : Path} {roots : List Path} {flight landing : List Request}
  {graph later : Graph}

/-- The sources of a map of a file at `origin`, as far as map and file system tell them. -/
def SourceMap.children (files : FileSystem) (directory : Path) (roots : List Path)
    (origin : Option Path) (map : SourceMap) : List Child :=
  Request.fetchChildren files directory roots ⟨0, origin, none, none⟩ map

def Graph.HasText (graph : Graph) (text : String) : Prop :=
  ∃ id node map, graph.node? id = some node ∧ node.state = .loaded ∧ node.map = some map ∧
    map.mappings = text

/-- Some text in the graph that has this digest has these lines. -/
def Graph.Decodes (graph : Graph) (digest : Md5.Digest) (lines : Mappings) : Prop :=
  ∃ text, graph.HasText text ∧ DecodeCache.key text = digest ∧ Mappings.decode text = .ok lines

structure Graph.Resolved (files : FileSystem) (directory : Path) (roots : List Path)
    (flight : List Request) (graph : Graph) (node : Node) (map : SourceMap) : Prop where
  file : ∀ path, node.path = some path → map.file = some path.slash
  mappings : ∃ lines, node.mappings = some lines ∧
    graph.Decodes (DecodeCache.key map.mappings) lines
  sources : List.Forall₂ (graph.Plays flight) (map.children files directory roots node.path)
    node.sources

structure Session.Sound (files : FileSystem) (directory : Path) (roots : List Path)
    (session : Session) (flight : List Request) : Prop where
  unmoved : session.directory = directory
  rooted : session.roots = roots
  indexed : session.graph.Indexed
  flying : session.graph.Flying flight
  bare : ∀ id node, session.graph.node? id = some node → node.sources ≠ [] → node.state = .loaded
  resolved : ∀ id node, session.graph.node? id = some node → node.state = .loaded →
    (node.map = none ∧ node.sources = []) ∨
      ∃ map, node.map = some map ∧
        session.graph.Resolved files directory roots flight node map
  remembered : ∀ digest lines, (digest, lines) ∈ session.cache.entries →
    session.graph.Decodes digest lines

namespace Graph

theorem HasText.advance {text : String} (has : graph.HasText text)
    (advances : Advances flight landing graph later) : later.HasText text := by
  obtain ⟨id, node, map, present, loaded, carried, same⟩ := has
  obtain ⟨new, there, step⟩ := advances id node present
  rw [step.loaded loaded] at there
  exact ⟨id, node, map, there, loaded, carried, same⟩

theorem Decodes.advance {digest : Md5.Digest} {lines : Mappings}
    (decodes : graph.Decodes digest lines) (advances : Advances flight landing graph later) :
    later.Decodes digest lines := by
  obtain ⟨text, has, key, read⟩ := decodes
  exact ⟨text, has.advance advances, key, read⟩

theorem Resolved.advance {node : Node} {map : SourceMap}
    (resolved : graph.Resolved files directory roots flight node map)
    (advances : Advances flight landing graph later) :
    later.Resolved files directory roots landing node map where
  file := resolved.file
  mappings := by
    obtain ⟨lines, shown, decodes⟩ := resolved.mappings
    exact ⟨lines, shown, decodes.advance advances⟩
  sources := resolved.sources.imp fun _ _ plays => plays.advance advances

theorem Grows.of_settled {id : NodeId} {node : Node} (grows : graph.Grows later)
    (bare : ∀ id node, graph.node? id = some node → node.sources ≠ [] → node.state = .loaded)
    (present : later.node? id = some node)
    (settled : node.state = .loaded ∨ node.sources ≠ []) : graph.node? id = some node := by
  rcases settled with loaded | sources
  · exact grows.of_loaded present loaded
  · cases before : graph.node? id with
    | none => exact absurd (grows.arrives id node present before).2 sources
    | some old =>
        obtain ⟨new, there, persists⟩ := grows.persists id old before
        rw [present] at there
        cases there
        rw [persists.sources] at sources
        rw [persists.loaded (bare id old before sources)]

end Graph

namespace Session

variable {session next : Session}

/-- What a step has to show: the nodes go on, and a node that is loaded by it is resolved. -/
theorem Sound.step (sound : session.Sound files directory roots flight)
    (unmoved : next.directory = session.directory) (rooted : next.roots = session.roots)
    (advances : Graph.Advances flight landing session.graph next.graph)
    (indexed : next.graph.Indexed) (flying : next.graph.Flying landing)
    (settled : ∀ id node, next.graph.node? id = some node →
      node.state = .loaded ∨ node.sources ≠ [] → session.graph.node? id = some node ∨
        node.state = .loaded ∧ ((node.map = none ∧ node.sources = []) ∨
          ∃ map, node.map = some map ∧
            next.graph.Resolved files directory roots landing node map))
    (remembered : ∀ digest lines, (digest, lines) ∈ next.cache.entries →
      (digest, lines) ∈ session.cache.entries ∨ next.graph.Decodes digest lines) :
    next.Sound files directory roots landing where
  unmoved := unmoved.trans sound.unmoved
  rooted := rooted.trans sound.rooted
  indexed := indexed
  flying := flying
  bare := by
    intro id node present sources
    rcases settled id node present (Or.inr sources) with before | ⟨loaded, -⟩
    · exact sound.bare id node before sources
    · exact loaded
  resolved := by
    intro id node present loaded
    rcases settled id node present (Or.inl loaded) with before | ⟨-, fresh⟩
    · rcases sound.resolved id node before loaded with bare | ⟨map, carried, resolved⟩
      · exact Or.inl bare
      · exact Or.inr ⟨map, carried, resolved.advance advances⟩
    · exact fresh
  remembered := by
    intro digest lines member
    rcases remembered digest lines member with old | decodes
    · exact (sound.remembered digest lines old).advance advances
    · exact decodes

theorem Sound.grow (sound : session.Sound files directory roots flight)
    (grows : session.graph.Grows graph) (indexed : graph.Indexed) :
    ({ session with graph := graph } : Session).Sound files directory roots flight := by
  apply sound.step
  · rfl
  · rfl
  · exact grows.advances flight
  · exact indexed
  · exact sound.flying.grow grows
  · intro id node present settled
    exact Or.inl (grows.of_settled sound.bare present settled)
  · intro digest lines member
    exact Or.inl member

/-- The requests that a failed load leaves behind are given up. -/
theorem Sound.land (sound : session.Sound files directory roots flight) :
    session.Sound files directory roots [] := by
  have fewer : ([] : List Request) ⊆ flight := List.nil_subset flight
  apply sound.step
  · rfl
  · rfl
  · exact Graph.advances_land session.graph fewer
  · exact sound.indexed
  · exact Graph.flying_nil session.graph
  · intro id node present _
    exact Or.inl present
  · intro digest lines member
    exact Or.inl member

end Session

end MapChain
