import MapChain.Proofs.Session.Places
import MapChain.Proofs.Session.Reached
import MapChain.Proofs.Session.Surviving

/-!
What loading makes of a graph. Main statement: in every session, each loaded node is what its map
and the file system make of it, and a load that completes has loaded all that its root came from.
-/

set_option autoImplicit false

namespace MapChain

variable {files : FileSystem} {directory : Path} {options : Options} {graph : Graph}
  {session : Session} {node : Node} {map : SourceMap}

/-- A node and its sources are what the map of the node says. -/
structure Graph.Consistent (files : FileSystem) (directory : Path) (options : Options)
    (graph : Graph) (node : Node) (map : SourceMap) : Prop where
  file : ∀ path, node.path = some path → map.file = some path.slash
  /-- The memory of a session tells texts apart by their digests only. -/
  mappings : ∃ lines, node.mappings = some lines ∧ (Mappings.decode map.mappings = .ok lines ∨
    ∃ text, graph.HasText text ∧ text ≠ map.mappings ∧
      DecodeCache.key text = DecodeCache.key map.mappings ∧ Mappings.decode text = .ok lines)
  count : node.sources.length = map.sources.length
  nameless : ∀ index id, node.sources[index]? = some id →
    map.source? index = none ∨ map.source? index = some "" →
    ∃ child, graph.node? id = some child ∧ child.path = none ∧
      (child.state = .loaded → child.content = map.content? index)
  named : ∀ index id source, node.sources[index]? = some id → map.source? index = some source →
    source ≠ "" →
    ∃ path, pickSource files (map.candidates directory options node.path source) = some path ∧
      ∀ other, (∃ child, graph.node? other = some child ∧ child.isAt path = true) ↔ other = id

namespace SourceMap

variable {roots : List Path} {origin : Option Path} {index : Nat} {child : Child}

theorem length_children (files : FileSystem) (directory : Path) (roots : List Path)
    (origin : Option Path) (map : SourceMap) :
    (map.children files directory roots origin).length = map.sources.length := by
  simp [children, Request.fetchChildren]

theorem content_of_children
    (listed : (map.children files directory roots origin)[index]? = some child) :
    child.content = map.content? index := by
  unfold children Request.fetchChildren at listed
  obtain ⟨inside, shown⟩ := List.getElem?_eq_some_iff.1 listed
  rw [List.getElem_map, List.getElem_range] at shown
  rw [← shown]
  rfl

theorem path_of_children
    (listed : (map.children files directory roots origin)[index]? = some child) :
    child.path =
      match map.source? index with
      | none => none
      | some source =>
          if source.isEmpty then none
          else pickSource files (sourceCandidates directory roots origin map source) := by
  unfold children Request.fetchChildren at listed
  obtain ⟨inside, shown⟩ := List.getElem?_eq_some_iff.1 listed
  rw [List.getElem_map, List.getElem_range] at shown
  rw [← shown]
  rfl

end SourceMap

namespace Graph

variable {roots : List Path} {flight : List Request}

theorem Resolved.plays (resolved : graph.Resolved files directory roots flight node map)
    {index : Nat} {id : NodeId} (found : node.sources[index]? = some id) :
    ∃ child, (map.children files directory roots node.path)[index]? = some child ∧
      graph.Plays flight child id := by
  obtain ⟨inside, shown⟩ := List.getElem?_eq_some_iff.1 found
  obtain ⟨same, each⟩ := List.forall₂_iff_get.1 resolved.sources
  have within : index < (map.children files directory roots node.path).length := by
    rw [same]
    exact inside
  have plays := each index within inside
  rw [List.get_eq_getElem, List.get_eq_getElem, shown] at plays
  exact ⟨_, List.getElem?_eq_getElem within, plays⟩

theorem Resolved.consistent
    (resolved : graph.Resolved files directory
      (Session.searchRoots directory options.sourceRoots) [] node map)
    (indexed : graph.Indexed) : graph.Consistent files directory options node map where
  file := resolved.file
  mappings := by
    obtain ⟨lines, shown, text, has, key, read⟩ := resolved.mappings
    refine ⟨lines, shown, ?_⟩
    by_cases same : text = map.mappings
    · rw [same] at read
      exact Or.inl read
    · exact Or.inr ⟨text, has, same, key, read⟩
  count := by
    rw [← resolved.sources.length_eq, SourceMap.length_children]
  nameless := by
    intro index id found absent
    obtain ⟨child, listed, new, present, -, fits⟩ := resolved.plays found
    have bare : child.path = none := by
      rw [SourceMap.path_of_children listed]
      rcases absent with missing | empty
      · rw [missing]
      · rw [empty]
        rfl
    rw [Node.fits_nameless bare] at fits
    refine ⟨new, present, fits.nameless, ?_⟩
    intro loaded
    rw [fits.kept (by simp [loaded]), SourceMap.content_of_children listed]
  named := by
    intro index id source found shown written
    obtain ⟨child, listed, new, present, -, fits⟩ := resolved.plays found
    obtain ⟨path, picked⟩ :=
      Session.pick_source_ne_none files directory options node.path map source
    have spelled : child.path = some path := by
      have nonempty : ¬source.isEmpty = true := by simpa using written
      rw [SourceMap.path_of_children listed, shown]
      simp only [if_neg nonempty]
      rw [Session.pick_source_candidates, picked]
    rw [Node.fits_named spelled] at fits
    refine ⟨path, picked, ?_⟩
    intro other
    constructor
    · rintro ⟨old, there, same⟩
      exact indexed.unique there present same fits
    · intro same
      rw [same]
      exact ⟨new, present, fits⟩

end Graph

namespace Session

theorem Sound.visited_of_source {roots : List Path} {parent child : NodeId}
    (sound : session.Sound files directory roots []) (source : session.graph.Source parent child) :
    ∃ node, session.graph.node? child = some node ∧ node.state ≠ .unvisited := by
  obtain ⟨node, present, member⟩ := source
  have loaded := sound.bare parent node present (List.ne_nil_of_mem member)
  rcases sound.resolved parent node present loaded with ⟨-, bare⟩ | ⟨map, -, resolved⟩
  · rw [bare] at member
    cases member
  · obtain ⟨index, found⟩ := List.getElem?_of_mem member
    obtain ⟨part, -, new, there, visited, -⟩ := resolved.plays found
    exact ⟨new, there, visited⟩

theorem loaded_of_tidy {id : NodeId} (tidy : session.graph.Tidy [] [])
    (present : session.graph.node? id = some node) (visited : node.state ≠ .unvisited) :
    node.state = .loaded := by
  cases stage : node.state with
  | unvisited => exact absurd stage visited
  | loaded => rfl
  | queued =>
      have queued := tidy.queued id node present stage
      cases queued
  | fetching =>
      have fetching := tidy.fetching id node present stage
      cases fetching

/-- With no node on its way, what has been visited is loaded, and so are all its sources. -/
theorem Sound.loaded_of_reaches {roots : List Path} {root id : NodeId}
    (sound : session.Sound files directory roots []) (tidy : session.graph.Tidy [] [])
    (visited : ∀ node, session.graph.node? root = some node → node.state ≠ .unvisited)
    (reaches : session.graph.Reaches root id) :
    ∀ node, session.graph.node? id = some node → node.state = .loaded := by
  intro node present
  apply loaded_of_tidy tidy present
  cases Relation.ReflTransGen.cases_tail reaches with
  | inl same =>
      rw [same] at present
      exact visited node present
  | inr last =>
      obtain ⟨parent, -, source⟩ := last
      obtain ⟨child, there, seen⟩ := sound.visited_of_source source
      rw [present] at there
      cases there
      exact seen

theorem Sound.visited_load {roots : List Path} {waves : Nat} {root : NodeId} {pace : Pace}
    (sound : session.Sound files directory roots [])
    (present : (session.load pace files waves root).1.graph.node? root = some node) :
    node.state ≠ .unvisited := visited_of_load sound.indexed present

/-- In any session, whatever its loads have come to, each loaded node with a map is what its map
and the file system make of it, and has nodes for sources. If all loads before have completed, a
load that completes has loaded everything that its root came from. -/
theorem loads_build_closed_graph {outcomes : List LoadOutcome}
    (reached : Reached files directory options outcomes session) :
    (∀ id node map, session.graph.node? id = some node → node.state = .loaded →
        node.map = some map → session.graph.Consistent files directory options node map) ∧
      (∀ parent child, session.graph.Source parent child →
        ∃ node, session.graph.node? child = some node) ∧
      ((∀ outcome ∈ outcomes, outcome = .complete) →
        ∀ pace waves root, (session.load pace files waves root).2 = .complete →
          ∀ id, (session.load pace files waves root).1.graph.Reaches root id →
            ∀ node, (session.load pace files waves root).1.graph.node? id = some node →
              node.state = .loaded) := by
  have sound := sound_of_reached reached
  refine ⟨?_, ?_, ?_⟩
  · intro id node map present loaded carried
    rcases sound.resolved id node present loaded with ⟨bare, -⟩ | ⟨own, shown, resolved⟩
    · rw [carried] at bare
      cases bare
    · rw [carried] at shown
      cases shown
      exact resolved.consistent sound.indexed
  · intro parent child source
    obtain ⟨node, present, -⟩ := sound.visited_of_source source
    exact ⟨node, present⟩
  · intro smooth pace waves root completed id reaches
    have tidy := tidy_load sound (tidy_of_reached reached smooth) completed
    apply (sound.load pace waves root).loaded_of_reaches tidy _ reaches
    intro node present
    exact sound.visited_load present

def sampleOptions : Options :=
  { sourceMaps := [(⟨"a.js"⟩, ⟨3, none, [some "b.ts", none], [none, some "x"], [], "", none⟩)] }

def sampleFiles : FileSystem := ⟨[(["w"], .directory), (["w", "b.ts"], .file [])]⟩

def sample : Session := ((start ⟨"/w"⟩ sampleOptions).addRoot ⟨"a.js"⟩).1

theorem sample_builds_closed_graph :
    (∃ node map, (sample.load .concurrent sampleFiles 2 0).1.graph.node? 0 = some node ∧
        node.sources.length = 2 ∧ (sample.load .concurrent sampleFiles 2 0).1.graph.Consistent
          sampleFiles ⟨"/w"⟩ sampleOptions node map) ∧
      ∀ id, (sample.load .concurrent sampleFiles 2 0).1.graph.Reaches 0 id →
        ∀ node, (sample.load .concurrent sampleFiles 2 0).1.graph.node? id = some node →
          node.state = .loaded := by
  have opened : Reached sampleFiles ⟨"/w"⟩ sampleOptions [] sample := .addRoot ⟨"a.js"⟩ .start
  have completed : (sample.load .concurrent sampleFiles 2 0).2 = .complete := by decide +kernel
  obtain ⟨consistent, -, -⟩ := loads_build_closed_graph (opened.load .concurrent 2 0)
  obtain ⟨-, -, closed⟩ := loads_build_closed_graph opened
  refine ⟨?_, closed (by simp) .concurrent 2 0 completed⟩
  have resolved : ((sample.load .concurrent sampleFiles 2 0).1.graph.node? 0).any (fun node =>
      node.isLoaded && node.map.isSome && node.sources.length = 2) = true := by decide +kernel
  cases present : (sample.load .concurrent sampleFiles 2 0).1.graph.node? 0 with
  | none =>
      rw [present] at resolved
      cases resolved
  | some node =>
      rw [present, Option.any_some, Bool.and_eq_true, Bool.and_eq_true] at resolved
      obtain ⟨⟨loaded, mapped⟩, two⟩ := resolved
      obtain ⟨map, carried⟩ := Option.isSome_iff_exists.1 mapped
      exact ⟨node, map, rfl, of_decide_eq_true two,
        consistent 0 node map present (of_decide_eq_true loaded) carried⟩

def backslashOptions : Options :=
  { sourceMaps := [(⟨"a\\b.js"⟩, ⟨3, none, [], [], [], "", none⟩)] }

def backslash : Session :=
  (((start ⟨"/tmp/vfs"⟩ backslashOptions).addRoot ⟨"a\\b.js"⟩).1.load .blocking .empty 1 0).1

def pairOptions (first second : String) : Options :=
  { sourceMaps := [(⟨"/a"⟩, ⟨3, none, [], [], [], first, none⟩),
      (⟨"/b"⟩, ⟨3, none, [], [], [], second, none⟩)] }

def pair (first second : String) : Session :=
  (((start ⟨"/"⟩ (pairOptions first second)).load .blocking .empty 1 0).1.load
    .blocking .empty 1 1).1

theorem read_empty (path : Path) : FileSystem.empty.readText? path = none := by
  unfold FileSystem.readText? FileSystem.find?
  cases FileSystem.address? path with
  | none => rfl
  | some address =>
      by_cases root : address = []
      · simp [FileSystem.entryAt?, root]
      · simp [FileSystem.entryAt?, root, FileSystem.empty]

def pairNode (path text : String) : Option Mappings → Node
  | none => ⟨some ⟨path⟩, none, some ⟨3, none, [], [], [], text, none⟩, none, [], .unvisited⟩
  | some lines =>
      ⟨some ⟨path⟩, none, some ⟨3, some path, [], [], [], text, none⟩, some lines, [], .loaded⟩

def paired (first second : String) (read again : Option Mappings) (cache : DecodeCache) :
    Session where
  graph := ⟨#[pairNode "/a" first read, pairNode "/b" second again], [(⟨"/b"⟩, 1), (⟨"/a"⟩, 0)]⟩
  cache := cache
  roots := (start ⟨"/"⟩ (pairOptions first second)).roots
  directory := ⟨"/"⟩

section

variable {first second : String} {read again : Option Mappings} {lines : Mappings}
  {cache later : DecodeCache}

theorem start_pair (first second : String) :
    start ⟨"/"⟩ (pairOptions first second) =
      paired first second none none (.empty DecodeCache.defaultCapacity) := by
  have one : Path.absolute ⟨"/"⟩ ⟨"/a"⟩ = ⟨"/a"⟩ := by decide +kernel
  have other : Path.absolute ⟨"/"⟩ ⟨"/b"⟩ = ⟨"/b"⟩ := by decide +kernel
  have apart : ¬Path.Same ⟨"/a"⟩ ⟨"/b"⟩ := by decide +kernel
  simp [start, pairOptions, paired, pairNode, seedMap, Graph.attach, Graph.lookup, Graph.empty,
    Graph.push, Graph.enter, Graph.size, Graph.modify, Node.fresh, one, other, apart]

theorem load_pair_first (found : cache.decode first = (later, .ok lines)) :
    (paired first second none again cache).load .blocking .empty 1 0 =
      (paired first second (some lines) again later, .complete) := by
  have slash : (Path.slash ⟨"/a"⟩) = "/a" := by decide +kernel
  simp [paired, pairNode, load, loadBlocking, enqueue, Graph.node?, Graph.modify, runWaves,
    beginWave, beginFetch, advanceBlocking, Request.fetch, Request.fetchContent, Request.fetchMap,
    read_empty, Request.fetchChildren, Except.bind, pure, bind, Except.pure, integrate, found,
    resolveNode, attachChildren, collect, Except.map, slash]

theorem load_pair_second (found : cache.decode second = (later, .ok lines)) :
    (paired first second read none cache).load .blocking .empty 1 1 =
      (paired first second read (some lines) later, .complete) := by
  have slash : (Path.slash ⟨"/b"⟩) = "/b" := by decide +kernel
  simp [paired, pairNode, load, loadBlocking, enqueue, Graph.node?, Graph.modify, runWaves,
    beginWave, beginFetch, advanceBlocking, Request.fetch, Request.fetchContent, Request.fetchMap,
    read_empty, Request.fetchChildren, Except.bind, pure, bind, Except.pure, integrate, found,
    resolveNode, attachChildren, collect, Except.map, slash]

theorem decode_pair (read : Mappings.decode first = .ok lines)
    (same : DecodeCache.key first = DecodeCache.key second) :
    ∃ middle last,
      (DecodeCache.empty DecodeCache.defaultCapacity).decode first = (middle, .ok lines) ∧
        middle.decode second = (last, .ok lines) := by
  simp [DecodeCache.empty, DecodeCache.decode, DecodeCache.find?, read, DecodeCache.insert,
    DecodeCache.makeRoom, DecodeCache.defaultCapacity, same]

theorem node_pair (read : Mappings.decode first = .ok lines)
    (same : DecodeCache.key first = DecodeCache.key second) :
    (pair first second).graph.node? 1 = some (pairNode "/b" second (some lines)) := by
  obtain ⟨middle, last, found, again⟩ := decode_pair read same
  rw [pair, start_pair, load_pair_first found, load_pair_second again]
  rfl

end

/-- The map of a loaded node need not say the path of the node as it is, and its lines need not be
those of its own text. -/
theorem loaded_nodes_may_depart :
    (Reached .empty ⟨"/tmp/vfs"⟩ backslashOptions [.complete] backslash ∧
        ∃ node map path, backslash.graph.node? 0 = some node ∧ node.state = .loaded ∧
          node.map = some map ∧ node.path = some path ∧ map.file ≠ some path.text) ∧
      ∃ first second outcomes,
        Reached .empty ⟨"/"⟩ (pairOptions first second) outcomes (pair first second) ∧
          ∃ node map lines, (pair first second).graph.node? 1 = some node ∧
            node.state = .loaded ∧ node.map = some map ∧
            Mappings.decode map.mappings = .ok lines ∧ node.mappings ≠ some lines := by
  refine ⟨⟨?_, ?_⟩, ?_⟩
  · have opened : Reached .empty ⟨"/tmp/vfs"⟩ backslashOptions [] _ :=
      .addRoot ⟨"a\\b.js"⟩ .start
    have completed : (((start ⟨"/tmp/vfs"⟩ backslashOptions).addRoot ⟨"a\\b.js"⟩).1.load
        .blocking .empty 1 0).2 = .complete := by decide +kernel
    have loaded := opened.load .blocking 1 0
    rw [completed] at loaded
    exact loaded
  · have slashed : (backslash.graph.node? 0).any (fun node =>
        node.isLoaded && node.path = some ⟨"/tmp/vfs/a\\b.js"⟩ &&
          node.map.any fun map => map.file = some "/tmp/vfs/a/b.js") = true := by decide +kernel
    cases present : backslash.graph.node? 0 with
    | none =>
        rw [present] at slashed
        cases slashed
    | some node =>
        rw [present, Option.any_some, Bool.and_eq_true, Bool.and_eq_true] at slashed
        obtain ⟨⟨loaded, named⟩, mapped⟩ := slashed
        obtain ⟨map, carried, file⟩ := (Option.any_eq_true _ _).1 mapped
        refine ⟨node, map, _, rfl, of_decide_eq_true loaded, carried, of_decide_eq_true named, ?_⟩
        rw [of_decide_eq_true file]
        decide
  · obtain ⟨first, second, lines, other, same, read, again, different⟩ :=
      DecodeCache.exists_collision
    have opened : Reached .empty ⟨"/"⟩ (pairOptions first second) [] _ := .start
    refine ⟨first, second, _, (opened.load .blocking 1 0).load .blocking 1 1, ?_⟩
    refine ⟨_, _, other, node_pair read same, rfl, rfl, again, ?_⟩
    intro equal
    cases equal
    exact different rfl

end Session

end MapChain
