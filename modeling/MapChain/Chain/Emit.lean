import MapChain.Chain.Flatten

/-!
What a chain is written as: the text of its root with a new reference at the end, and the map in
that reference or in a file beside the text.
-/

set_option autoImplicit false

namespace MapChain

structure Emit where
  /-- Where the text goes. -/
  target : Path
  /-- The text, unless the root has none. -/
  content : Option String
  map : Option SourceMap
  /-- The map stands in the text. -/
  inline : Bool
  deriving Repr

def mapPath (target : Path) : Path := ⟨target.text ++ ".map"⟩

inductive WriteStep where
  | directories (path : Path)
  | file (path : Path) (text : String)
  deriving DecidableEq, Repr

/-- What a file tree is kept on, which may fail at any step. -/
structure Device where
  progress : WriteStep → FileSystem.Progress

def Device.reliable : Device := ⟨fun _ => .whole⟩

namespace Emit

def mapFile? (emit : Emit) : Option (Path × String) :=
  if emit.inline then none else emit.map.map fun map => (mapPath emit.target, map.jsonText)

/-- What is to be written, in this order: the directory, the text, the map. -/
def steps (directory : Path) (emit : Emit) : List WriteStep :=
  [.directories (Path.parentOr directory emit.target)] ++
    (emit.content.map (WriteStep.file emit.target)).toList ++
    (emit.mapFile?.map fun (path, text) => WriteStep.file path text).toList

end Emit

namespace FileSystem

/-- Why a file tree refuses a step, said by a mark: its reasons have no words. -/
def refusal : String := "<os>"

def perform (files : FileSystem) (device : Device) (step : WriteStep) :
    FileSystem × Except Fault Unit :=
  match step with
  | .directories path =>
      let (files, made) :=
        match device.progress step with
        | .whole => files.makeDirectories path
        | .nothing => (files, false)
        | .part count => (files.makeFirst path count, false)
      (files, if made then .ok () else .error (.unwritable path refusal))
  | .file path text =>
      let (files, written) := files.writeText path text (device.progress step)
      (files, if written then .ok () else .error (.unwritable path refusal))

/-- Performs steps up to the first that fails. What was done before it, and what it has done itself,
stays done. -/
def performAll (files : FileSystem) (device : Device) :
    List WriteStep → FileSystem × Except Fault Unit
  | [] => (files, .ok ())
  | step :: steps =>
      match files.perform device step with
      | (files, .ok ()) => performAll files device steps
      | (files, .error fault) => (files, .error fault)

end FileSystem

namespace Emit

def writeConcurrent (files : FileSystem) (device : Device) (directory : Path) (emit : Emit) :
    FileSystem × Except Fault Unit :=
  match files.perform device (.directories (Path.parentOr directory emit.target)) with
  | (files, .error fault) => (files, .error fault)
  | (files, .ok ()) =>
      let (files, written) :=
        match emit.content with
        | some content => files.perform device (.file emit.target content)
        | none => (files, .ok ())
      match written with
      | .error fault => (files, .error fault)
      | .ok () =>
          match emit.mapFile? with
          | some (path, text) => files.perform device (.file path text)
          | none => (files, .ok ())

end Emit

namespace Chain

def referenceUrl (directory : Path) (mode : ReferenceMode) (map : SourceMap)
    (target base : Path) : String :=
  match mode with
  | .inline => map.toUrl
  | .absolutePath => (mapPath target).slash
  | .relativePath => (mapPath target).fileName
  | .basePath => (Path.relative directory base (mapPath target)).slash

/-- The text and the map that the chain is written as. The target is the file of the root if none
is given; sources are given relative to the directory of the target unless the options name
another. -/
def emit (chain : Chain) (target : Option Path) (options : Options) :
    Chain × Except Fault Emit :=
  match target.or chain.rootPath? with
  | none => (chain, .error .missingInput)
  | some target =>
      let target := Path.absolute chain.directory target
      let base :=
        match options.base with
        | some base => Path.absolute chain.directory base
        | none => Path.parentOr chain.directory target
      let (chain, map) := chain.apply { options with base := some base }
      let stripped := chain.rootContent?.map (Reference.strip target)
      let content :=
        match map with
        | none => stripped
        | some map =>
            let url := referenceUrl chain.directory options.referenceMode map target base
            stripped.map (· ++ Reference.comment target url)
      (chain, .ok ⟨target, content, map, options.referenceMode = .inline⟩)

def writeOn (device : Device) (chain : Chain) (files : FileSystem) (target : Option Path)
    (options : Options) : Chain × FileSystem × Except Fault Emit :=
  match chain.emit target options with
  | (chain, .error fault) => (chain, files, .error fault)
  | (chain, .ok emit) =>
      match files.performAll device (emit.steps chain.directory) with
      | (files, .ok ()) => (chain, files, .ok emit)
      | (files, .error fault) => (chain, files, .error fault)

def writeConcurrentOn (device : Device) (chain : Chain) (files : FileSystem)
    (target : Option Path) (options : Options) : Chain × FileSystem × Except Fault Emit :=
  match chain.emit target options with
  | (chain, .error fault) => (chain, files, .error fault)
  | (chain, .ok emit) =>
      match emit.writeConcurrent files device chain.directory with
      | (files, .ok ()) => (chain, files, .ok emit)
      | (files, .error fault) => (chain, files, .error fault)

def write (chain : Chain) (files : FileSystem) (target : Option Path) (options : Options) :
    Chain × FileSystem × Except Fault Emit :=
  chain.writeOn .reliable files target options

def writeConcurrent (chain : Chain) (files : FileSystem) (target : Option Path)
    (options : Options) : Chain × FileSystem × Except Fault Emit :=
  chain.writeConcurrentOn .reliable files target options

end Chain

end MapChain
