import MapChain.CommandLine.Run

/-!
The program: loads the chain of a file from disk, and writes the file and its map.
-/

set_option autoImplicit false

namespace MapChain.Disk

def look (files : FileSystem) (path : Path) : IO FileSystem := do
  match FileSystem.address? path with
  | none => return files
  | some address =>
      if (files.entryAt? address).isSome then return files
      try
        let content ← IO.FS.readBinFile ⟨path.text⟩
        return files.put address (.file content.toList)
      catch _ =>
        try
          let _ ← IO.FS.realPath ⟨path.text⟩
          return files.put address .directory
        catch _ => return files

/-- Notes down all that a request consults: its content, then its map, then its sources. -/
def survey (session : Session) (files : FileSystem) (request : Request) : IO FileSystem := do
  let mut files := files
  for _ in [0:3] do
    files ← (request.consulted files session.directory session.roots).foldlM look files
  return files

partial def load (session : Session) (wave : List NodeId) : IO (Session × LoadOutcome) := do
  if wave.isEmpty then return (session, .complete)
  let (session, requests) := session.beginWave wave
  let files ← requests.foldlM (survey session) FileSystem.empty
  match session.advanceBlocking files requests with
  | (session, .error fault) => return (session, .failed fault)
  | (session, .ok next) => load session next

/-- The first line of what the system says is the reason of a failure. -/
def attempt (path : Path) (action : IO Unit) : IO (Except Fault Unit) := do
  try
    action
    return .ok ()
  catch error => return .error (.unwritable path (((toString error).splitOn "\n").headD ""))

def perform : WriteStep → IO (Except Fault Unit)
  | .directories path => attempt path (IO.FS.createDirAll ⟨path.text⟩)
  | .file path text => attempt path (IO.FS.writeFile ⟨path.text⟩ text)

def performAll : List WriteStep → IO (Except Fault Unit)
  | [] => return .ok ()
  | step :: steps => do
      match ← perform step with
      | .ok () => performAll steps
      | .error fault => return .error fault

def run (arguments : CommandLine.Arguments) : IO CommandLine.Report := do
  let directory : Path := ⟨(← IO.currentDir).toString⟩
  let (session, root) := (Session.start directory arguments.options).addRoot arguments.input
  let (session, wave) := session.enqueue root
  match CommandLine.plan arguments (Session.loaded root (← load session wave)) with
  | .report report => return report
  | .write steps report =>
      match ← performAll steps with
      | .ok () => return report
      | .error fault => return .failure fault

end MapChain.Disk

open MapChain in
def main (words : List String) : IO UInt32 := do
  let report ←
    match CommandLine.parse words with
    | .error stop => pure stop.report
    | .ok arguments => Disk.run arguments
  report.output.forM fun line => IO.println line
  report.messages.forM fun line => IO.eprintln line
  return report.code
