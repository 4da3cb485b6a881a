import MapChain.Chain.Emit
import MapChain.CommandLine.Arguments

/-!
What a command line does and says.
-/

set_option autoImplicit false

namespace MapChain.CommandLine

structure Report where
  code : UInt32
  output : List String
  messages : List String
  deriving DecidableEq, Repr

def usage : String := "Usage: sourcery [OPTIONS] --input <INPUT>"

def helpLines : List String :=
  ["Flatten a chain of source maps into one",
    "",
    usage,
    "",
    "Options:",
    "  -i, --input <INPUT>",
    "          File to resolve",
    "  -o, --output <OUTPUT>",
    "          Destination (defaults to overwriting the input)",
    "  -d, --datauri",
    "          Append the flattened map as a data URI instead of writing a .map file",
    "      --absolute-path",
    "          Point the sourceMappingURL comment at the absolute map path",
    "  -x, --exclude-content",
    "          Leave sourcesContent out of the flattened map",
    "  -f, --flatten <FLATTEN>",
    "          full, existing or none [default: full]",
    "  -b, --base <BASE>",
    "          Directory that relative source paths are rendered against",
    "      --source-root <SOURCE_ROOT>",
    "          Value for the map's sourceRoot field",
    "      --source-path-template <SOURCE_PATH_TEMPLATE>",
    "          Template for sources: [absolute-path], [relative-path], [base-path] " ++
      "[default: [relative-path]]",
    "      --source-roots <SOURCE_ROOTS>",
    "          Extra directory searched when resolving sources (repeatable)",
    "  -v, --verbose",
    "          Log what is being resolved",
    "  -h, --help",
    "          Print help",
    "  -V, --version",
    "          Print version"]

def Stop.report : Stop → Report
  | .help => ⟨0, helpLines, []⟩
  | .version => ⟨0, ["sourcery 0.1.0"], []⟩
  | .misuse => ⟨2, [], ["error: unexpected or missing arguments", "", usage]⟩

def Report.failure (fault : Fault) : Report := ⟨1, [], ["Error: " ++ fault.message]⟩

def Report.nothingToDo (input : Path) : Report :=
  ⟨0, [], [input.text ++ " has no source map, nothing to do"]⟩

def Report.wrote (target : Path) (untraceable : Nat) : Report :=
  let lost :=
    if untraceable = 0 then []
    else [toString untraceable ++ " segment(s) could not be traced"]
  ⟨0, [], ("Wrote " ++ target.text) :: lost⟩

def Report.unfinished : Report := ⟨1, [], ["Error: the chain of source maps does not end"]⟩

inductive Plan where
  | report (report : Report)
  /-- Steps to perform, and what to say if none of them fails. -/
  | write (steps : List WriteStep) (report : Report)
  deriving Repr

def plan (arguments : Arguments) : Loaded → Plan
  | .failed fault => .report (.failure fault)
  | .original => .report (.nothingToDo arguments.input)
  | .unfinished => .report .unfinished
  | .chain chain =>
      match chain.emit arguments.output arguments.options with
      | (_, .error fault) => .report (.failure fault)
      | (chain, .ok emit) =>
          .write (emit.steps chain.directory) (.wrote emit.target chain.untraceable)

/-- Runs a command line in a directory of a file tree, with at most `waves` waves of files. -/
def run (files : FileSystem) (directory : Path) (waves : Nat) (words : List String) :
    FileSystem × Report :=
  match parse words with
  | .error stop => (files, stop.report)
  | .ok arguments =>
      match plan arguments
          (Chain.ofFile files directory arguments.options waves arguments.input) with
      | .report report => (files, report)
      | .write steps report =>
          match files.performAll .reliable steps with
          | (files, .ok ()) => (files, report)
          | (files, .error fault) => (files, .failure fault)

end MapChain.CommandLine
