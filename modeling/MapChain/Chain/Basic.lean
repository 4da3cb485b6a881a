import MapChain.Graph.Trace
import MapChain.Session.Load

/-!
Chains: a graph with the file at its end that the others went into.
-/

set_option autoImplicit false

namespace MapChain

structure Chain where
  graph : Graph
  root : NodeId
  /-- How many segments the last flattening could not trace. -/
  untraceable : Nat
  directory : Path
  deriving Repr

/-- What loading a file as a chain leads to. -/
inductive Loaded where
  | chain (chain : Chain)
  /-- The file has no map. -/
  | original
  | failed (fault : Fault)
  | unfinished
  deriving Repr

namespace Session

def chain? (session : Session) (root : NodeId) : Option Chain :=
  match session.graph.node? root with
  | some node => if node.isOriginal then none else some ⟨session.graph, root, 0, session.directory⟩
  | none => none

def loaded (root : NodeId) : Session × LoadOutcome → Loaded
  | (session, .complete) => ((session.chain? root).map Loaded.chain).getD .original
  | (_, .failed fault) => .failed fault
  | (_, .unfinished _) => .unfinished

end Session

namespace Chain

def ofFile (files : FileSystem) (directory : Path) (options : Options) (waves : Nat)
    (file : Path) : Loaded :=
  let (session, root) := (Session.start directory options).addRoot file
  Session.loaded root (session.loadBlocking files waves root)

def ofFileConcurrent (files : FileSystem) (directory : Path) (options : Options) (waves : Nat)
    (file : Path) : Loaded :=
  let (session, root) := (Session.start directory options).addRoot file
  Session.loaded root (session.loadConcurrent files waves root)

/-- A chain whose root has the given content. The file says where the content belongs. -/
def ofContent (files : FileSystem) (directory : Path) (options : Options) (waves : Nat)
    (file : Option Path) (content : String) : Loaded :=
  match (Session.start directory options).addContent file content with
  | .error fault => .failed fault
  | .ok (session, root) => Session.loaded root (session.loadBlocking files waves root)

def rootNode? (chain : Chain) : Option Node := chain.graph.node? chain.root

def rootPath? (chain : Chain) : Option Path := chain.rootNode?.bind (·.path)

def rootContent? (chain : Chain) : Option String := chain.rootNode?.bind (·.content)

/-- Where a position of the root came from. Lines count from one, and there is no line zero. -/
def trace (chain : Chain) (flatten : Flatten) (line : UInt32) (column : Option UInt32) :
    Option Trace :=
  if line = 0 then none else chain.graph.trace flatten ⟨chain.root, line - 1, column, none⟩

end Chain

end MapChain
