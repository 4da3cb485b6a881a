import MapChain.Session.Basic
import MapChain.Session.Fetch

/-!
Loading a root and everything that it came from, wave by wave. The nodes of a wave are fetched
from the file system and folded into the graph in their order; the sources that turn up are the
next wave. Main statement: a wave without nodes is the end of a load.
-/

set_option autoImplicit false

namespace MapChain

inductive LoadOutcome where
  | complete
  | failed (fault : Fault)
  /-- There are more waves than were allowed. -/
  | unfinished (wave : List NodeId)
  deriving DecidableEq, Repr

namespace Session

/-- The first wave: the root, unless its loading has begun before. -/
def enqueue (session : Session) (root : NodeId) : Session × List NodeId :=
  match session.graph.node? root with
  | some node =>
      if node.state = .unvisited then
        ({ session with
            graph := session.graph.modify root fun node => { node with state := .queued } },
          [root])
      else (session, [])
  | none => (session, [])

/-- Hands a queued node out to be fetched, with its content and its map. -/
def beginFetch (session : Session) (id : NodeId) : Session × Option Request :=
  match session.graph.node? id with
  | some node =>
      if node.state = .queued then
        ({ session with
            graph := session.graph.modify id fun node =>
              { node with state := .fetching, content := none, map := none } },
          some ⟨id, node.path, node.content, node.map⟩)
      else (session, none)
  | none => (session, none)

def beginWave (session : Session) : List NodeId → Session × List Request
  | [] => (session, [])
  | id :: wave =>
      let (session, request) := session.beginFetch id
      let (session, requests) := beginWave session wave
      (session, request.toList ++ requests)

def attachChild (graph : Graph) (child : Child) : Graph × NodeId × Bool :=
  let (graph, id) := graph.attach child.path child.content
  let isNew := (graph.node? id).any (·.state = .unvisited)
  let graph :=
    if isNew then graph.modify id fun node => { node with state := .queued } else graph
  (graph, id, isNew)

def attachChildren (graph : Graph) : List Child → Graph × List NodeId × List NodeId
  | [] => (graph, [], [])
  | child :: children =>
      let (graph, id, isNew) := attachChild graph child
      let (graph, sources, pending) := attachChildren graph children
      (graph, id :: sources, if isNew then id :: pending else pending)

def resolveNode (session : Session) (id : NodeId) (map : SourceMap) (mappings : Mappings)
    (children : List Child) : Session × List NodeId :=
  let (graph, sources, pending) := attachChildren session.graph children
  let graph := graph.modify id fun node =>
    { node with map := some map, mappings := some mappings, sources := sources }
  ({ session with graph := graph }, pending)

/-- Folds what was fetched into the graph. The result is the nodes that are still to be loaded. A
mapping that cannot be decoded leaves the node loaded and without a map. -/
def integrate (session : Session) (fetched : Fetched) :
    Session × Except Fault (List NodeId) :=
  match session.graph.node? fetched.id with
  | none => (session, .ok [])
  | some node =>
      let session := { session with
        graph := session.graph.modify fetched.id fun node =>
          { node with content := fetched.content, state := .loaded } }
      match fetched.map with
      | none => (session, .ok [])
      | some map =>
          let map := { map with file := (node.path.map Path.slash).or map.file }
          let (cache, decoded) := session.cache.decode map.mappings
          let session := { session with cache := cache }
          match decoded with
          | .error fault =>
              (session, .error (.malformedMapping (some (originLabel node.path)) fault))
          | .ok mappings =>
              let (session, pending) :=
                session.resolveNode fetched.id map mappings fetched.children
              (session, .ok pending)

def collect (pending : List NodeId) (later : Session × Except Fault (List NodeId)) :
    Session × Except Fault (List NodeId) :=
  (later.1, later.2.map (pending ++ ·))

def advanceBlocking (files : FileSystem) (session : Session) :
    List Request → Session × Except Fault (List NodeId)
  | [] => (session, .ok [])
  | request :: requests =>
      match request.fetch files session.directory session.roots with
      | .error fault => (session, .error fault)
      | .ok fetched =>
          match session.integrate fetched with
          | (session, .error fault) => (session, .error fault)
          | (session, .ok pending) => collect pending (advanceBlocking files session requests)

/-- Folds the results of a wave in their order. The first fault is the end. -/
def integrateAll (session : Session) :
    List (Except Fault Fetched) → Session × Except Fault (List NodeId)
  | [] => (session, .ok [])
  | .error fault :: _ => (session, .error fault)
  | .ok fetched :: results =>
      match session.integrate fetched with
      | (session, .error fault) => (session, .error fault)
      | (session, .ok pending) => collect pending (integrateAll session results)

/-- In which order the fetches of a wave come to their end. -/
structure Schedule where
  order : Session → List Request → List Nat
  complete : ∀ session requests, (order session requests).Perm (List.range requests.length)

def Schedule.inTurn : Schedule where
  order := fun _ requests => List.range requests.length
  complete := fun _ _ => .refl _

def answerAt (answer : Request → Except Fault Fetched) (requests : List Request)
    (answers : List (Option (Except Fault Fetched))) (place : Nat) :
    List (Option (Except Fault Fetched)) :=
  match requests[place]? with
  | some request => answers.set place (some (answer request))
  | none => answers

def answersIn (order : List Nat) (answer : Request → Except Fault Fetched)
    (requests : List Request) : List (Except Fault Fetched) :=
  (order.foldl (answerAt answer requests) (requests.map fun _ => none)).filterMap id

/-- Fetches all nodes of a wave, in the order of a schedule, before it folds the first. -/
def advanceScheduled (schedule : Schedule) (files : FileSystem) (session : Session)
    (requests : List Request) : Session × Except Fault (List NodeId) :=
  session.integrateAll (answersIn (schedule.order session requests)
    (·.fetchConcurrent files session.directory session.roots) requests)

def advanceConcurrent (files : FileSystem) (session : Session) (requests : List Request) :
    Session × Except Fault (List NodeId) :=
  advanceScheduled .inTurn files session requests

/-- Runs waves until one is empty, one fails, or no more are allowed. -/
def runWaves (advance : Session → List Request → Session × Except Fault (List NodeId)) :
    Nat → Session → List NodeId → Session × LoadOutcome
  | _, session, [] => (session, .complete)
  | 0, session, wave => (session, .unfinished wave)
  | waves + 1, session, wave =>
      let (session, requests) := session.beginWave wave
      match advance session requests with
      | (session, .error fault) => (session, .failed fault)
      | (session, .ok next) => runWaves advance waves session next

@[simp]
theorem run_waves_nil
    (advance : Session → List Request → Session × Except Fault (List NodeId)) (waves : Nat)
    (session : Session) : runWaves advance waves session [] = (session, .complete) := by
  cases waves <;> rfl

def loadBlocking (files : FileSystem) (waves : Nat) (session : Session) (root : NodeId) :
    Session × LoadOutcome :=
  let (session, wave) := session.enqueue root
  runWaves (advanceBlocking files) waves session wave

def loadScheduled (schedule : Schedule) (files : FileSystem) (waves : Nat) (session : Session)
    (root : NodeId) : Session × LoadOutcome :=
  let (session, wave) := session.enqueue root
  runWaves (advanceScheduled schedule files) waves session wave

def loadConcurrent (files : FileSystem) (waves : Nat) (session : Session) (root : NodeId) :
    Session × LoadOutcome :=
  let (session, wave) := session.enqueue root
  runWaves (advanceConcurrent files) waves session wave

end Session

end MapChain
