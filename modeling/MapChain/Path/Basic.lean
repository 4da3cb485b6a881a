import MapChain.Text.Search

/-!
Paths as they are written, and the parts they consist of. Separators that repeat and single dots
count for nothing, except one dot that begins a relative path. Main statement: joining an absolute
path to another gives that absolute path.
-/

set_option autoImplicit false

namespace MapChain

structure Path where
  text : String
  deriving DecidableEq, Repr, Inhabited

namespace Path

inductive Component where
  | root
  /-- A single dot. -/
  | here
  /-- Two dots. -/
  | up
  | name (text : String)
  deriving DecidableEq, Repr

def Component.text : Component → String
  | .root => ""
  | .here => "."
  | .up => ".."
  | .name text => text

def Component.isName : Component → Bool
  | .name _ => true
  | _ => false

/-- What stands in front of the pieces between separators: a separator, a dot, or nothing. -/
def lead : List Char → List Char
  | '/' :: _ => ['/']
  | ['.'] => ['.']
  | '.' :: '/' :: _ => ['.']
  | _ => []

def pieces (text : List Char) : List (List Char) := (text.drop (lead text).length).splitOn '/'

def isTrivial (piece : List Char) : Bool := piece = [] || piece = ['.']

def Component.ofPiece (piece : List Char) : Component :=
  if piece = ['.', '.'] then .up else .name (String.ofList piece)

def leadComponents : List Char → List Component
  | ['/'] => [.root]
  | ['.'] => [.here]
  | _ => []

def components (path : Path) : List Component :=
  let text := path.text.toList
  leadComponents (lead text) ++
    ((pieces text).filter (!isTrivial ·)).map Component.ofPiece

def ofComponents : List Component → Path
  | .root :: parts => ⟨"/" ++ "/".intercalate (parts.map Component.text)⟩
  | parts => ⟨"/".intercalate (parts.map Component.text)⟩

/-- Two spellings of one path. -/
def Same (left right : Path) : Prop := left.components = right.components

instance (left right : Path) : Decidable (Same left right) :=
  inferInstanceAs (Decidable (left.components = right.components))

def isAbsolute (path : Path) : Bool := path.text.toList.head? = some '/'

def join (base path : Path) : Path :=
  if path.isAbsolute then path
  else if base.text = "" ∨ base.text.toList.getLast? = some '/' then ⟨base.text ++ path.text⟩
  else ⟨base.text ++ "/" ++ path.text⟩

theorem join_of_is_absolute (base : Path) {path : Path} (absolute : path.isAbsolute = true) :
    base.join path = path := by
  simp [join, absolute]

def parent? (path : Path) : Option Path :=
  let text := path.text.toList
  match (pieces text).reverse.dropWhile isTrivial with
  | [] => if lead text = ['.'] then some ⟨""⟩ else none
  | _ :: before =>
      some ⟨String.ofList
        (lead text ++ List.intercalate ['/'] (before.dropWhile isTrivial).reverse)⟩

def fileName? (path : Path) : Option String :=
  match path.components.getLast? with
  | some (.name text) => some text
  | _ => none

def fileName (path : Path) : String := path.fileName?.getD ""

/-- What follows the last dot of the file name, unless that dot is its first character or it has
none. -/
def extension? (path : Path) : Option (List Char) :=
  let name := path.fileName.toList.reverse
  match name.dropWhile (· ≠ '.') with
  | [] | [_] => none
  | _ => some (name.takeWhile (· ≠ '.')).reverse

def slash (path : Path) : String := path.text.map fun char => if char = '\\' then '/' else char

def withoutFileProtocol (text : String) : String :=
  match Search.after? "file://".toList text.toList with
  | some rest => String.ofList rest
  | none => text

end Path

end MapChain
