import MapChain.Mappings.Cache
import MapChain.Path.Resolve
import MapChain.SourceMap

/-!
What a caller can ask for, and how it is spelled.
-/

set_option autoImplicit false

namespace MapChain

inductive Flatten where
  /-- Down to the deepest source. -/
  | full
  /-- Down to the last file whose sources all have content. -/
  | existing
  /-- Not at all: the map of the root is given out as it is. -/
  | off
  deriving DecidableEq, Repr

inductive ReferenceMode where
  /-- The map itself. -/
  | inline
  | absolutePath
  /-- The name of the map file, which lies beside the text. -/
  | relativePath
  /-- The way to the map file from the base directory. -/
  | basePath
  deriving DecidableEq, Repr

inductive OptionFault where
  | unknownFlatten (text : String)
  | unknownReference (text : String)
  deriving DecidableEq, Repr

def OptionFault.message : OptionFault → String
  | .unknownFlatten text =>
      "unknown flatten policy '" ++ text ++ "' (expected full, existing or none)"
  | .unknownReference text => "unknown sourceMappingURL mode '" ++ text ++ "'"

def Flatten.ofText (text : String) : Except OptionFault Flatten :=
  if text = "full" then .ok .full
  else if text = "existing" then .ok .existing
  else if text = "none" ∨ text = "false" ∨ text = "off" then .ok .off
  else .error (.unknownFlatten text)

def Flatten.text : Flatten → String
  | .full => "full"
  | .existing => "existing"
  | .off => "none"

theorem Flatten.of_text_text (flatten : Flatten) : ofText flatten.text = .ok flatten := by
  cases flatten <;> rfl

def ReferenceMode.text : ReferenceMode → String
  | .inline => "inline"
  | .absolutePath => Template.absolutePlaceholder
  | .relativePath => Template.relativePlaceholder
  | .basePath => Template.basePlaceholder

def ReferenceMode.ofText (text : String) : Except OptionFault ReferenceMode :=
  if text = "inline" then .ok .inline
  else if text = Template.absolutePlaceholder then .ok .absolutePath
  else if text = Template.relativePlaceholder then .ok .relativePath
  else if text = Template.basePlaceholder then .ok .basePath
  else .error (.unknownReference text)

theorem ReferenceMode.of_text_text (mode : ReferenceMode) : ofText mode.text = .ok mode := by
  cases mode <;> rfl

structure Options where
  flatten : Flatten := .full
  excludeContent : Bool := false
  sourceRoot : Option String := none
  sourcePathTemplate : String := Template.relativePlaceholder
  /-- The directory that sources are given relative to. -/
  base : Option Path := none
  referenceMode : ReferenceMode := .relativePath
  /-- More directories in which the sources of a map are looked for. -/
  sourceRoots : List Path := []
  /-- Contents that come before those of files. -/
  content : List (Path × String) := []
  /-- Maps that come before those that a text refers to, by the path of that text. -/
  sourceMaps : List (Path × SourceMap) := []
  cacheCapacity : Nat := DecodeCache.defaultCapacity
  deriving Repr

namespace Options

/-- Gives a path a value. A spelling of a path that has one already replaces its value. -/
def assign {Value : Type} (values : List (Path × Value)) (path : Path) (value : Value) :
    List (Path × Value) :=
  if values.any fun entry => Path.Same entry.1 path then
    values.map fun entry => if Path.Same entry.1 path then (entry.1, value) else entry
  else values ++ [(path, value)]

def withContent (options : Options) (path : Path) (content : String) : Options :=
  { options with content := assign options.content path content }

def withSourceMap (options : Options) (path : Path) (map : SourceMap) : Options :=
  { options with sourceMaps := assign options.sourceMaps path map }

/-- The older switches. Of two that are on, `inline` counts. -/
def withSwitches (options : Options) (inline absolutePath : Bool) : Options :=
  if inline then { options with referenceMode := .inline }
  else if absolutePath then { options with referenceMode := .absolutePath }
  else options

end Options

end MapChain
