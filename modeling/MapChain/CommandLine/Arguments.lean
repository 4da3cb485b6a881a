import MapChain.Options
import MapChain.Text.Search

/-!
The words of a command line. Words are taken from left to right, and the first one that cannot be
taken is the end.
-/

set_option autoImplicit false

namespace MapChain.CommandLine

inductive Flag where
  | inline
  | absolutePath
  | excludeContent
  | verbose
  | help
  | version
  deriving DecidableEq, Repr

inductive Setting where
  | input
  | output
  | flatten
  | base
  | sourceRoot
  | sourcePathTemplate
  /-- The only one that may be given more than once. -/
  | sourceRoots
  deriving DecidableEq, Repr

inductive Switch where
  | flag (flag : Flag)
  | setting (setting : Setting)
  deriving DecidableEq, Repr

def longNames : List (String × Switch) :=
  [("input", .setting .input), ("output", .setting .output), ("datauri", .flag .inline),
    ("absolute-path", .flag .absolutePath), ("exclude-content", .flag .excludeContent),
    ("flatten", .setting .flatten), ("base", .setting .base),
    ("source-root", .setting .sourceRoot),
    ("source-path-template", .setting .sourcePathTemplate),
    ("source-roots", .setting .sourceRoots), ("verbose", .flag .verbose), ("help", .flag .help),
    ("version", .flag .version)]

def shortNames : List (Char × Switch) :=
  [('i', .setting .input), ('o', .setting .output), ('d', .flag .inline),
    ('x', .flag .excludeContent), ('f', .setting .flatten), ('b', .setting .base),
    ('v', .flag .verbose), ('h', .flag .help), ('V', .flag .version)]

inductive Stop where
  | help
  | version
  | misuse
  deriving DecidableEq, Repr

structure Given where
  flags : List Flag
  input : Option Path
  output : Option Path
  flatten : Option Flatten
  base : Option Path
  sourceRoot : Option String
  sourcePathTemplate : Option String
  sourceRoots : List Path
  deriving Repr

namespace Given

def nothing : Given := ⟨[], none, none, none, none, none, none, []⟩

/-- A flag may stand only once. -/
def raise (given : Given) (flag : Flag) : Except Stop Given :=
  match flag with
  | .help => .error .help
  | .version => .error .version
  | flag =>
      if flag ∈ given.flags then .error .misuse
      else .ok { given with flags := given.flags ++ [flag] }

def pathOf (text : String) : Except Stop Path :=
  if text.isEmpty then .error .misuse else .ok ⟨text⟩

def once {Value : Type} (old : Option Value) (value : Except Stop Value) :
    Except Stop (Option Value) :=
  if old.isSome then .error .misuse else value.map some

def set (given : Given) (setting : Setting) (text : String) : Except Stop Given :=
  match setting with
  | .input => (once given.input (pathOf text)).map ({ given with input := · })
  | .output => (once given.output (pathOf text)).map ({ given with output := · })
  | .base => (once given.base (pathOf text)).map ({ given with base := · })
  | .flatten =>
      (once given.flatten ((Flatten.ofText text).mapError fun _ => .misuse)).map
        ({ given with flatten := · })
  | .sourceRoot => (once given.sourceRoot (.ok text)).map ({ given with sourceRoot := · })
  | .sourcePathTemplate =>
      (once given.sourcePathTemplate (.ok text)).map ({ given with sourcePathTemplate := · })
  | .sourceRoots =>
      (pathOf text).map fun path => { given with sourceRoots := given.sourceRoots ++ [path] }

/-- A long name, with the value behind an equals sign if there is one. The result tells which
setting still waits for its value. -/
def takeLong (given : Given) (word : List Char) : Except Stop (Option Setting × Given) :=
  let name := String.ofList (word.takeWhile (· ≠ '='))
  match longNames.lookup name, word.dropWhile (· ≠ '=') with
  | some (.flag flag), [] => (given.raise flag).map (none, ·)
  | some (.setting setting), [] => .ok (some setting, given)
  | some (.setting setting), _ :: value =>
      (given.set setting (String.ofList value)).map (none, ·)
  | _, _ => .error .misuse

/-- Short names in one word. The rest of the word behind a setting is its value, without an equals
sign in front. -/
def takeShort (given : Given) : List Char → Except Stop (Option Setting × Given)
  | [] => .ok (none, given)
  | char :: word =>
      match shortNames.lookup char with
      | some (.flag flag) =>
          match given.raise flag with
          | .ok given => takeShort given word
          | .error stop => .error stop
      | some (.setting setting) =>
          match word with
          | [] => .ok (some setting, given)
          | '=' :: value => (given.set setting (String.ofList value)).map (none, ·)
          | value => (given.set setting (String.ofList value)).map (none, ·)
      | none => .error .misuse

def take (given : Given) (word : String) : Except Stop (Option Setting × Given) :=
  match word.toList with
  | '-' :: '-' :: long => given.takeLong long
  | '-' :: char :: short => given.takeShort (char :: short)
  | _ => .error .misuse

/-- A word that can be no value: it begins with a dash and goes on. -/
def isOption (word : String) : Bool :=
  match word.toList with
  | '-' :: _ :: _ => true
  | _ => false

/-- Takes all words. Two dashes say that no option follows, and nothing else can. -/
def takeAll : Option Setting → Given → List String → Except Stop Given
  | none, given, [] => .ok given
  | some _, _, [] => .error .misuse
  | some setting, given, word :: words =>
      if isOption word then .error .misuse
      else
        match given.set setting word with
        | .ok given => takeAll none given words
        | .error stop => .error stop
  | none, given, word :: words =>
      if word = "--" then (if words = [] then .ok given else .error .misuse)
      else
        match given.take word with
        | .ok (waiting, given) => takeAll waiting given words
        | .error stop => .error stop

end Given

structure Arguments where
  input : Path
  /-- The input itself if none is named. -/
  output : Option Path
  options : Options
  deriving Repr

/-- Everything has a standard value but the input. -/
def Given.arguments (given : Given) : Except Stop Arguments :=
  match given.input with
  | none => .error .misuse
  | some input =>
      let standard : Options := { }
      let options : Options :=
        { flatten := given.flatten.getD standard.flatten
          excludeContent := given.flags.contains .excludeContent
          sourceRoot := given.sourceRoot
          sourcePathTemplate := given.sourcePathTemplate.getD standard.sourcePathTemplate
          base := given.base
          sourceRoots := given.sourceRoots }
      .ok ⟨input, given.output,
        options.withSwitches (given.flags.contains .inline) (given.flags.contains .absolutePath)⟩

def parse (words : List String) : Except Stop Arguments :=
  match Given.takeAll none .nothing words with
  | .ok given => given.arguments
  | .error stop => .error stop

end MapChain.CommandLine
