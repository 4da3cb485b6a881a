import MapChain.Mappings.Text
import MapChain.Options
import MapChain.SourceMap

/-!
The files of a session and how they came from one another. Every node is a file with a path or a
content without one; the sources of a node are nodes again. Main statement: a path that was
attached is found at the node that attaching it gave.
-/

set_option autoImplicit false

namespace MapChain

abbrev NodeId := Nat

inductive LoadState where
  | unvisited
  | queued
  | fetching
  | loaded
  deriving DecidableEq, Repr

structure Node where
  path : Option Path
  content : Option String
  map : Option SourceMap
  mappings : Option Mappings
  sources : List NodeId
  state : LoadState
  deriving Repr

namespace Node

def fresh (path : Option Path) (content : Option String) : Node :=
  ⟨path, content, none, none, [], .unvisited⟩

def isOriginal (node : Node) : Bool := node.map.isNone

def isLoaded (node : Node) : Bool := node.state = .loaded

def isPending (node : Node) : Bool := node.state = .unvisited || node.state = .queued

/-- A pending node without content takes the one that is offered. -/
def offer (node : Node) (content : Option String) : Node :=
  if node.isPending && node.content.isNone then { node with content := content } else node

/-- A node has the path in question, in whatever spelling. -/
def isAt (path : Path) (node : Node) : Bool := node.path.any fun own => Path.Same own path

theorem is_at_congr {path spelling : Path} (same : Path.Same path spelling) (node : Node) :
    node.isAt path = node.isAt spelling := by
  have alike (own : Path) : Path.Same own path ↔ Path.Same own spelling := by
    unfold Path.Same at same ⊢
    rw [same]
  simp only [isAt, alike]

theorem is_at_fresh (path : Path) (content : Option String) :
    (fresh (some path) content).isAt path = true := by
  simp [isAt, fresh, Path.Same]

theorem is_at_offer (path : Path) (node : Node) (content : Option String) :
    (node.offer content).isAt path = node.isAt path := by
  unfold offer isAt
  split <;> rfl

end Node

structure Graph where
  nodes : Array Node
  /-- Where the node of each path is, the latest entry first. -/
  index : List (Path × NodeId)
  deriving Repr

namespace Graph

def empty : Graph := ⟨#[], []⟩

def size (graph : Graph) : Nat := graph.nodes.size

def node? (graph : Graph) (id : NodeId) : Option Node := graph.nodes[id]?

def modify (graph : Graph) (id : NodeId) (change : Node → Node) : Graph :=
  { graph with nodes := graph.nodes.modify id change }

def push (graph : Graph) (node : Node) : Graph := { graph with nodes := graph.nodes.push node }

def enter (graph : Graph) (path : Path) (id : NodeId) : Graph :=
  { graph with index := (path, id) :: graph.index }

def lookup (graph : Graph) (path : Path) : Option NodeId :=
  (graph.index.find? fun entry => Path.Same entry.1 path).map (·.2)

/-- The node of a path, which is made if there is none. Content without a path always makes a
node. -/
def attach (graph : Graph) (path : Option Path) (content : Option String) : Graph × NodeId :=
  match path with
  | none => (graph.push (.fresh none content), graph.size)
  | some path =>
      match graph.lookup path with
      | some id => (graph.modify id (·.offer content), id)
      | none => ((graph.push (.fresh (some path) content)).enter path graph.size, graph.size)

@[simp]
theorem lookup_modify (graph : Graph) (id : NodeId) (change : Node → Node) (path : Path) :
    (graph.modify id change).lookup path = graph.lookup path := rfl

@[simp]
theorem lookup_push (graph : Graph) (node : Node) (path : Path) :
    (graph.push node).lookup path = graph.lookup path := rfl

theorem lookup_enter (graph : Graph) (path other : Path) (id : NodeId) :
    (graph.enter path id).lookup other =
      if Path.Same path other then some id else graph.lookup other := by
  by_cases same : Path.Same path other <;> simp [lookup, enter, same]

theorem attach_of_lookup {graph : Graph} {path : Path} {id : NodeId}
    (known : graph.lookup path = some id) (content : Option String) :
    graph.attach (some path) content = (graph.modify id (·.offer content), id) := by
  simp [attach, known]

theorem attach_of_lookup_none {graph : Graph} {path : Path} (known : graph.lookup path = none)
    (content : Option String) :
    graph.attach (some path) content =
      ((graph.push (.fresh (some path) content)).enter path graph.size, graph.size) := by
  simp [attach, known]

def hasContent (graph : Graph) (id : NodeId) : Bool :=
  (graph.node? id).any (·.content.isSome)

def hasCompleteContent (graph : Graph) (id : NodeId) : Bool :=
  (graph.node? id).any fun node => node.sources.all graph.hasContent

def isTerminal (graph : Graph) (flatten : Flatten) (id : NodeId) : Bool :=
  match graph.node? id with
  | none => true
  | some node =>
      node.map.isNone || node.mappings.isNone || node.sources.isEmpty ||
        (flatten = .existing && !graph.hasCompleteContent id)

end Graph

end MapChain
