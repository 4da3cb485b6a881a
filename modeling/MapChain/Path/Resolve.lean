import MapChain.Path.Basic

/-!
Resolving paths by their text alone, without a look at any file, and templates that spell a path.
The directory that relative paths start from is given.
-/

set_option autoImplicit false

namespace MapChain.Path

/-- Puts one part on a stack of parts, the last one first: a single dot changes nothing, two dots
take a name away, stay at the root, and pile up otherwise. -/
def settle (stack : List Component) : Component → List Component
  | .root => [.root]
  | .here => stack
  | .up =>
      match stack with
      | .name _ :: below => below
      | .root :: _ => stack
      | _ => .up :: stack
  | .name text => .name text :: stack

def settled (parts : List Component) : List Component := (parts.foldl settle []).reverse

def normalize (path : Path) : Path := ofComponents (settled path.components)

/-- `path` as seen from the directory `base`, which itself is seen from `directory`. -/
def resolve (directory base path : Path) : Path :=
  if path.isAbsolute then normalize path
  else if base.isAbsolute then normalize (base.join path)
  else normalize ((directory.join base).join path)

def absolute (directory path : Path) : Path := resolve directory directory path

def parentOr (directory path : Path) : Path := path.parent?.getD directory

def apart {Part : Type} [DecidableEq Part] : List Part → List Part → List Part × List Part
  | left :: lefts, right :: rights =>
      if left = right then apart lefts rights else (left :: lefts, right :: rights)
  | lefts, rights => (lefts, rights)

def relative (directory source target : Path) : Path :=
  let (back, ahead) :=
    apart (absolute directory source).components (absolute directory target).components
  ofComponents (back.map (fun _ => .up) ++ ahead)

end MapChain.Path

namespace MapChain.Template

def absolutePlaceholder : String := "[absolute-path]"

def relativePlaceholder : String := "[relative-path]"

def basePlaceholder : String := "[base-path]"

/-- Fills in the placeholders one kind after the other, and ends with slashes for backslashes.
Other brackets stay as they are. -/
def render (directory : Path) (template : String) (source base : Path) : String :=
  let fill (placeholder text : String) (chars : List Char) : List Char :=
    Search.replaceAll placeholder.toList text.toList chars
  let filled :=
    fill basePlaceholder source.fileName <|
      fill relativePlaceholder (Path.relative directory base source).slash <|
        fill absolutePlaceholder source.slash template.toList
  (Path.mk (String.ofList filled)).slash

end MapChain.Template
