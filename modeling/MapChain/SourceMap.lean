import MapChain.Base64
import MapChain.Json
import MapChain.Reference.Comment
import MapChain.Text.Quoted
import MapChain.Text.Search

/-!
Source maps of version 3, as JSON text and inside data URLs. A map is an object, or an array of the
same values in the order of `keys`; keys that mean nothing are passed over, and a known key may
stand only once.
-/

set_option autoImplicit false

namespace MapChain

structure SourceMap where
  version : UInt32
  file : Option String
  sources : List (Option String)
  sourcesContent : List (Option String)
  names : List String
  mappings : String
  sourceRoot : Option String
  deriving DecidableEq, Repr

namespace SourceMap

/-- The only version that is read and written. -/
def currentVersion : UInt32 := 3

def source? (map : SourceMap) (index : Nat) : Option String := map.sources[index]?.join

def content? (map : SourceMap) (index : Nat) : Option String := map.sourcesContent[index]?.join

def name? (map : SourceMap) (index : Nat) : Option String := map.names[index]?

inductive Fault where
  /-- The text is no JSON, or not of the shape of a map. -/
  | json
  | unsupportedVersion (version : UInt32)
  /-- A data URL without a base64 payload. -/
  | noPayload
  | base64
  | utf8
  deriving DecidableEq, Repr

/-- Faults of the carrying formats are said by a mark, whatever their details. -/
def Fault.message : Fault → String
  | .json => "<json>"
  | .unsupportedVersion version => "unsupported version " ++ toString version.toNat
  | .noPayload => "sourceMappingURL is not base64-encoded"
  | .base64 => "<base64>"
  | .utf8 => "<utf8>"

end SourceMap

end MapChain

namespace MapChain.SourceMap

def keys : List String :=
  ["version", "file", "sources", "sourcesContent", "names", "mappings", "sourceRoot"]

def textJson (text : String) : Json := .string (some text)

def optionalJson : Option String → Json
  | none => .null
  | some text => textJson text

def optionalMember (key : String) : Option String → List (Option String × Json)
  | none => []
  | some text => [(some key, textJson text)]

def toJson (map : SourceMap) : Json :=
  .object
    ([(some "version", .number (toString map.version.toNat))] ++
      optionalMember "file" map.file ++
      [(some "sources", .array (map.sources.map optionalJson)),
        (some "sourcesContent", .array (map.sourcesContent.map optionalJson)),
        (some "names", .array (map.names.map textJson)),
        (some "mappings", textJson map.mappings)] ++
      optionalMember "sourceRoot" map.sourceRoot)

def jsonText (map : SourceMap) : String := String.ofList map.toJson.print

def asText? : Json → Option String
  | .string text => text
  | _ => none

def asOptional? : Json → Option (Option String)
  | .null => some none
  | value => (asText? value).map some

def asList? {Item : Type} (asItem? : Json → Option Item) : Json → Option (List Item)
  | .array items => items.mapM asItem?
  | _ => none

/-- A whole number of thirty-two bits, written with digits alone. -/
def asVersion? : Json → Option UInt32
  | .number literal =>
      let digits := literal.toList
      if digits.all Char.isDigit then
        let number := digits.foldl (fun number digit => 10 * number + (digit.toNat - 48)) 0
        if number < UInt32.size then some (UInt32.ofNat number) else none
      else none
  | _ => none

/-- The members of a map with their keys. Every key has to be a text. -/
def members? : Json → Option (List (String × Json))
  | .object members =>
      members.mapM fun (key, value) => key.map fun key => (key, value)
  | .array items => if items.length ≤ keys.length then some (keys.zip items) else none
  | _ => none

/-- The value under a key, read where it is present and `fallback` where it is absent. A key that
stands twice has no value. -/
def member? {Value : Type} (members : List (String × Json)) (key : String)
    (asValue? : Json → Option Value) (fallback : Option Value) : Option Value :=
  match members.filter (·.1 = key) with
  | [] => fallback
  | [(_, value)] => asValue? value
  | _ => none

def ofJson? (json : Json) : Option SourceMap := do
  let members ← members? json
  let version ← member? members "version" asVersion? none
  let file ← member? members "file" asOptional? (some none)
  let sources ← member? members "sources" (asList? asOptional?) (some [])
  let sourcesContent ← member? members "sourcesContent" (asList? asOptional?) (some [])
  let names ← member? members "names" (asList? asText?) (some [])
  let mappings ← member? members "mappings" asText? none
  let sourceRoot ← member? members "sourceRoot" asOptional? (some none)
  return ⟨version, file, sources, sourcesContent, names, mappings, sourceRoot⟩

/-- Drops the first line if it guards the text against being run as a script. -/
def withoutGuard (text : String) : String :=
  match Search.after? [')', ']', '\x7d', '\''] text.toList with
  | none => text
  | some rest =>
      match rest.dropWhile (· ≠ '\n') with
      | [] => text
      | _ :: body => String.ofList body

def parse (text : String) : Except Fault SourceMap :=
  match (Json.parse (withoutGuard text)).bind ofJson? with
  | none => .error .json
  | some map =>
      if map.version = currentVersion then .ok map
      else .error (.unsupportedVersion map.version)

def toUrl (map : SourceMap) : String :=
  Reference.dataHead ++
    String.ofList (Base64.encode (Utf8.encode map.jsonText.toList))

/-- What follows the first mark of a base64 payload that has something behind it, all on one
line. -/
def payload? : List Char → Option (List Char)
  | [] => none
  | char :: text =>
      match Search.after? "base64,".toList (char :: text) with
      | none => payload? text
      | some rest => if rest ≠ [] ∧ '\n' ∉ rest then some rest else payload? text

def ofUrl (url : String) : Except Fault SourceMap :=
  match payload? url.toList with
  | none => .error .noPayload
  | some payload =>
      match Base64.decode (Blank.trimEnd payload) with
      | none => .error .base64
      | some bytes =>
          match Utf8.decode bytes with
          | none => .error .utf8
          | some text => parse (String.ofList text)

end MapChain.SourceMap
