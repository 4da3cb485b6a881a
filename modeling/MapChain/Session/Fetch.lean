import MapChain.FileSystem
import MapChain.Graph.Basic
import MapChain.Reference.Comment
import MapChain.Session.Basic
import MapChain.SourceMap

/-!
What loading one node takes from the file system: its content, its map, and the places of its
sources. Fetching looks at no graph. It is done one node after the other, or for several nodes side
by side. Main statement: a source is found at the first candidate that exists.
-/

set_option autoImplicit false

namespace MapChain

/-- A node to be fetched, with what is known of it. -/
structure Request where
  id : NodeId
  path : Option Path
  content : Option String
  map : Option SourceMap
  deriving Repr

structure Child where
  path : Option Path
  content : Option String
  deriving DecidableEq, Repr

structure Fetched where
  id : NodeId
  content : Option String
  map : Option SourceMap
  children : List Child
  deriving Repr

inductive MapReference where
  | inline (map : SourceMap)
  | external (file : Path)
  deriving Repr

def originLabel (path : Option Path) : String := (path.map Path.slash).getD "<content>"

def originDirectory (directory : Path) (path : Option Path) : Path :=
  (path.map (Path.parentOr directory)).getD directory

def mapReference (directory : Path) (origin : Option Path) (content : String) :
    Except Fault (Option MapReference) :=
  match Reference.findUrl? content with
  | none => .ok none
  | some url =>
      if Reference.isDataUrl url then
        match SourceMap.ofUrl url with
        | .ok map => .ok (some (.inline map))
        | .error fault => .error (.invalidSourceMap ("data URI in " ++ originLabel origin) fault)
      else
        let file : Path := ⟨Path.withoutFileProtocol (Reference.decodeUrl url)⟩
        .ok (some (.external (Path.resolve directory (originDirectory directory origin) file)))

/-- The map in a file. A file that cannot be read holds none. -/
def readMap (files : FileSystem) (file : Path) : Except Fault (Option SourceMap) :=
  match files.readText? file with
  | none => .ok none
  | some text =>
      match SourceMap.parse text with
      | .ok map => .ok (some map)
      | .error fault => .error (.invalidSourceMap file.slash fault)

/-- Where a source may lie: in the directory of the node, then in each root, everywhere below the
root that the map names. -/
def sourceCandidates (directory : Path) (roots : List Path) (origin : Option Path)
    (map : SourceMap) (source : String) : List Path :=
  let mapRoot : Path := ⟨Path.withoutFileProtocol (map.sourceRoot.getD "")⟩
  let places := (origin.map (Path.parentOr directory)).toList ++ roots
  places.map fun place =>
    Path.resolve directory (Path.resolve directory place mapRoot)
      ⟨Path.withoutFileProtocol source⟩

/-- The first candidate that exists, or else the first one. -/
def pickSource (files : FileSystem) (candidates : List Path) : Option Path :=
  (candidates.find? files.holds).or candidates.head?

theorem mem_of_pick_source {files : FileSystem} {candidates : List Path} {path : Path}
    (picked : pickSource files candidates = some path) : path ∈ candidates := by
  rcases Option.or_eq_some_iff.1 picked with found | ⟨-, first⟩
  · exact List.mem_of_find?_eq_some found
  · exact List.mem_of_head? first

def firstExisting? (files : FileSystem) (place : Nat) : List Path → Option Nat
  | [] => none
  | candidate :: candidates =>
      if (files.exists? candidate).getD false then some place
      else firstExisting? files (place + 1) candidates

def pickAt (candidates : List Path) (place : Option Nat) : Option Path :=
  candidates[place.getD 0]?

namespace Request

def fetchContent (files : FileSystem) (request : Request) : Option String :=
  request.content.or (request.path.bind files.readText?)

/-- The map that was supplied, or else the one that the content refers to. -/
def fetchMap (files : FileSystem) (directory : Path) (request : Request)
    (content : Option String) : Except Fault (Option SourceMap) :=
  match request.map, content with
  | some map, _ => .ok (some map)
  | none, none => .ok none
  | none, some content => do
      match ← mapReference directory request.path content with
      | none => return none
      | some (.inline map) => return some map
      | some (.external file) => readMap files file

/-- The source at an index of a map. An entry that is absent or empty has no path. -/
def fetchChild (files : FileSystem) (directory : Path) (roots : List Path) (request : Request)
    (map : SourceMap) (index : Nat) : Child :=
  let path :=
    match map.source? index with
    | none => none
    | some source =>
        if source.isEmpty then none
        else pickSource files (sourceCandidates directory roots request.path map source)
  ⟨path, map.content? index⟩

def fetchChildren (files : FileSystem) (directory : Path) (roots : List Path) (request : Request)
    (map : SourceMap) : List Child :=
  (List.range map.sources.length).map (request.fetchChild files directory roots map)

def fetch (files : FileSystem) (directory : Path) (roots : List Path) (request : Request) :
    Except Fault Fetched := do
  let content := request.fetchContent files
  let map ← request.fetchMap files directory content
  let children := (map.map (request.fetchChildren files directory roots)).getD []
  return ⟨request.id, content, map, children⟩

def contentConcurrent (files : FileSystem) (request : Request) : Option String :=
  match request.content, request.path with
  | some content, _ => some content
  | none, some file => files.readText? file
  | none, none => none

/-- The source at an index of a map, with one look at the file system after the other. -/
def childConcurrent (files : FileSystem) (directory : Path) (roots : List Path) (request : Request)
    (map : SourceMap) (index : Nat) : Child :=
  match (map.source? index).filter (!·.isEmpty) with
  | some source =>
      let candidates := sourceCandidates directory roots request.path map source
      ⟨pickAt candidates (firstExisting? files 0 candidates), map.content? index⟩
  | none => ⟨none, map.content? index⟩

def childrenConcurrent (files : FileSystem) (directory : Path) (roots : List Path)
    (request : Request) (map : SourceMap) : List Child :=
  (List.range map.sources.length).foldl
    (fun children index => children ++ [request.childConcurrent files directory roots map index]) []

def fetchConcurrent (files : FileSystem) (directory : Path) (roots : List Path)
    (request : Request) : Except Fault Fetched :=
  let content := request.contentConcurrent files
  match request.fetchMap files directory content with
  | .error fault => .error fault
  | .ok none => .ok ⟨request.id, content, none, []⟩
  | .ok (some map) =>
      .ok ⟨request.id, content, some map, request.childrenConcurrent files directory roots map⟩

/-- The paths that a fetch looks at, as far as `files` already tells which ones these are. Content
leads to a map, and the map to its sources. -/
def consulted (files : FileSystem) (directory : Path) (roots : List Path) (request : Request) :
    List Path :=
  let content := request.fetchContent files
  let mapFile :=
    match content.map (mapReference directory request.path) with
    | some (.ok (some (.external file))) => [file]
    | _ => []
  let candidates :=
    match request.fetchMap files directory content with
    | .ok (some map) =>
        (map.sources.flatMap Option.toList).flatMap
          (sourceCandidates directory roots request.path map)
    | _ => []
  request.path.toList ++ mapFile ++ candidates

end Request

end MapChain
