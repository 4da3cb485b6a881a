import MapChain.Path.Basic
import MapChain.Text.Coding

/-!
File trees as values: what a path leads to, and what writing does. Main statement: what is put at
an address is found there.
-/

set_option autoImplicit false

namespace MapChain

namespace FileSystem

inductive Entry where
  | directory
  | file (content : List UInt8)
  deriving DecidableEq, Repr

end FileSystem

/-- Entries by their address, which is the names from the root down. The root needs no entry. -/
structure FileSystem where
  entries : List (List String × FileSystem.Entry)
  deriving Repr

namespace FileSystem

def empty : FileSystem := ⟨[]⟩

def entryAt? (files : FileSystem) (address : List String) : Option Entry :=
  if address = [] then some .directory else files.entries.lookup address

def put (files : FileSystem) (address : List String) (entry : Entry) : FileSystem :=
  ⟨(address, entry) :: files.entries.filter (·.1 ≠ address)⟩

theorem entry_at_put (files : FileSystem) {address : List String} (inside : address ≠ [])
    (entry : Entry) : (files.put address entry).entryAt? address = some entry := by
  simp [entryAt?, put, inside]

/-- The address of an absolute path whose parts are all names. The character NUL is in no name of
a file. -/
def address? (path : Path) : Option (List String) :=
  match path.components with
  | .root :: parts =>
      parts.mapM fun
        | .name text => if text.toList.contains '\x00' then none else some text
        | _ => none
  | _ => none

def find? (files : FileSystem) (path : Path) : Option Entry :=
  (address? path).bind files.entryAt?

def holds (files : FileSystem) (path : Path) : Bool := (files.find? path).isSome

def isBlocked (files : FileSystem) (address : List String) : Bool :=
  (List.range address.length).any fun count =>
    match files.entryAt? (address.take count) with
    | some (.file _) => true
    | _ => false

/-- Whether a path leads anywhere, as far as that can be told: it cannot for what is no address, nor
for what lies below a file. -/
def exists? (files : FileSystem) (path : Path) : Option Bool :=
  match address? path with
  | none => none
  | some address =>
      if (files.entryAt? address).isSome then some true
      else if files.isBlocked address then none
      else some false

theorem exists_get_d (files : FileSystem) (path : Path) :
    (files.exists? path).getD false = files.holds path := by
  unfold exists? holds find?
  cases address? path with
  | none => rfl
  | some address =>
      cases there : files.entryAt? address with
      | some entry => simp [there]
      | none =>
          simp only [there, Option.bind_some, Option.isSome_none, Bool.false_eq_true, if_false]
          split <;> rfl

/-- The content of a file. Directories and bytes that are no text cannot be read. -/
def readText? (files : FileSystem) (path : Path) : Option String :=
  match files.find? path with
  | some (.file content) => (Utf8.decode content).map String.ofList
  | _ => none

def maxName : Nat := 255

def maxPath : Nat := 4095

def writable? (path : Path) : Option (List String) :=
  if path.text.utf8ByteSize ≤ maxPath then address? path else none

def makeBelow (files : FileSystem) (above : List String) : List String → FileSystem × Bool
  | [] => (files, true)
  | name :: names =>
      let here := above ++ [name]
      match files.entryAt? here with
      | some .directory => makeBelow files here names
      | some (.file _) => (files, false)
      | none =>
          if name.utf8ByteSize ≤ maxName then makeBelow (files.put here .directory) here names
          else (files, false)

def makeDirectories (files : FileSystem) (path : Path) : FileSystem × Bool :=
  match writable? path with
  | some address => files.makeBelow [] address
  | none => (files, false)

def makeFirst (files : FileSystem) (path : Path) (count : Nat) : FileSystem :=
  match writable? path with
  | some address => (files.makeBelow [] (address.take count)).1
  | none => files

/-- Where the file lies that is opened to be written. Its directory has to exist, and it must not
be a directory. -/
def openable? (files : FileSystem) (path : Path) : Option (List String) := do
  let address ← writable? path
  let name ← address.getLast?
  match files.entryAt? address.dropLast, files.entryAt? address with
  | some .directory, some .directory => none
  | some .directory, _ => if name.utf8ByteSize ≤ maxName then some address else none
  | _, _ => none

/-- How far a device gets with a change that the tree itself admits. -/
inductive Progress where
  | whole
  /-- Nothing is made and nothing is opened. -/
  | nothing
  /-- So many directories of a path, or bytes of a text. -/
  | part (count : Nat)
  deriving DecidableEq, Repr

/-- Gives a file a new content, and says whether all of it is there. A file that is opened loses
the content that it had. -/
def writeText (files : FileSystem) (path : Path) (text : String) (progress : Progress) :
    FileSystem × Bool :=
  let bytes := Utf8.encode text.toList
  match files.openable? path, progress with
  | some address, .whole => (files.put address (.file bytes), true)
  | some address, .part count => (files.put address (.file (bytes.take count)), false)
  | _, _ => (files, false)

end FileSystem

end MapChain
