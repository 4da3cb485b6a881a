import MapChain.Graph.Basic
import MapChain.Mappings.Text
import MapChain.Path.Basic
import MapChain.SourceMap

/-!
A session: the graph that several roots share, with what stays known from one load to the next, and
what can go wrong in it.
-/

set_option autoImplicit false

namespace MapChain

inductive Fault where
  /-- `origin` names the file that the mapping belongs to, where it is known. -/
  | malformedMapping (origin : Option String) (fault : Mappings.Fault)
  | invalidSourceMap (label : String) (fault : SourceMap.Fault)
  /-- Neither a file nor content is given. -/
  | missingInput
  /-- `reason` says in other words than ours why. -/
  | unwritable (path : Path) (reason : String)
  deriving DecidableEq, Repr

def Fault.message : Fault → String
  | .malformedMapping none fault => "malformed mappings: " ++ fault.message
  | .malformedMapping (some origin) fault =>
      "malformed mappings: " ++ origin ++ ": " ++ fault.message
  | .invalidSourceMap label fault =>
      "invalid source map (" ++ label ++ "): " ++ fault.message
  | .missingInput => "a source must specify either a file or content"
  | .unwritable path reason => "failed to write " ++ path.text ++ ": " ++ reason

end MapChain

namespace MapChain

structure Session where
  graph : Graph
  cache : DecodeCache
  /-- The directories in which sources are looked for, after that of the file itself. -/
  roots : List Path
  /-- The directory that relative paths start from. -/
  directory : Path
  deriving Repr

namespace Session

def addDistinct (paths : List Path) (path : Path) : List Path :=
  if paths.any (Path.Same · path) then paths else paths ++ [path]

def searchRoots (directory : Path) (roots : List Path) : List Path :=
  (roots.map (Path.absolute directory) ++ [directory]).foldl addDistinct []

def seedContent (directory : Path) (graph : Graph) (entry : Path × String) : Graph :=
  (graph.attach (some (Path.absolute directory entry.1)) (some entry.2)).1

def seedMap (directory : Path) (graph : Graph) (entry : Path × SourceMap) : Graph :=
  let (graph, id) := graph.attach (some (Path.absolute directory entry.1)) none
  graph.modify id fun node => { node with map := some entry.2 }

def start (directory : Path) (options : Options) : Session :=
  { graph :=
      options.sourceMaps.foldl (seedMap directory)
        (options.content.foldl (seedContent directory) .empty)
    cache := .empty options.cacheCapacity
    roots := searchRoots directory options.sourceRoots
    directory := directory }

def inputPath (session : Session) (file : Path) : Path :=
  Path.absolute session.directory ⟨Path.withoutFileProtocol file.text⟩

def addRoot (session : Session) (file : Path) : Session × NodeId :=
  let (graph, id) := session.graph.attach (some (session.inputPath file)) none
  ({ session with graph := graph }, id)

/-- Adds a root with its content, which counts more than any other content as long as the node is
not loaded. -/
def addContent (session : Session) (file : Option Path) (content : String) :
    Except Fault (Session × NodeId) :=
  if file.isNone && content.isEmpty then .error .missingInput
  else
    let (graph, id) := session.graph.attach (file.map session.inputPath) none
    let graph := graph.modify id fun node =>
      if node.isLoaded then node else { node with content := some content }
    .ok ({ session with graph := graph }, id)

end Session

end MapChain
