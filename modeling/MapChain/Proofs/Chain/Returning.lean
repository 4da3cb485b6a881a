import MapChain.Proofs.Chain.Distinguishing
import MapChain.Proofs.Chain.Referring

/-!
Entries of an emitted map, seen from where the map goes. A source is written as its path or as the
way to it from the directory of the target, and a loader reads the entry from that directory. Main
statement: the first place where the loader looks is the file that the entry was written for.
-/

set_option autoImplicit false

namespace MapChain.Chain

variable {chain : Chain} {options seed : Options} {map : SourceMap} {directory target path : Path}
  {session : Session} {place : Option Path} {emit : Emit}

/-- The loader looks for an entry of a map that lies at `target`, and looks for it at `path`
first. -/
structure Returns (directory target : Path) (map : SourceMap) (entry : String) (path : Path) :
    Prop where
  filled : path ≠ Path.absolute directory (Path.parentOr directory target) → entry ≠ ""
  first : ∀ roots, (sourceCandidates directory roots (some target) map entry).head? = some path

end MapChain.Chain
