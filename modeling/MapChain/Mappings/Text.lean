import MapChain.Mappings.Vlq

/-!
Mappings: lines of segments, each with a generated column and, where it has one, the position it
came from. In the text of a mapping lines end at semicolons and segments at commas; every number is
written as its difference from the total of its field. The total of the generated column starts anew
on every line, the others run through the whole text. Main statement: a total that is accepted is
the exact sum.
-/

set_option autoImplicit false

namespace MapChain

structure Origin where
  source : UInt32
  line : UInt32
  column : UInt32
  name : Option UInt32
  deriving DecidableEq, Repr, Inhabited

/-- A segment without an origin says that what stands at its column comes from no source. -/
structure Segment where
  generatedColumn : UInt32
  origin : Option Origin
  deriving DecidableEq, Repr, Inhabited

abbrev Line := List Segment

abbrev Mappings := List Line

end MapChain

namespace MapChain.Mappings

inductive Field where
  | generatedColumn
  | sourceIndex
  | sourceLine
  | sourceColumn
  | nameIndex
  deriving DecidableEq, Repr

def Field.label : Field → String
  | .generatedColumn => "generated column"
  | .sourceIndex => "source index"
  | .sourceLine => "source line"
  | .sourceColumn => "source column"
  | .nameIndex => "name index"

inductive Fault where
  | integer (segment : String) (fault : Vlq.Fault)
  | outOfRange (field : Field) (total : Int) (line : Nat)
  | fieldCount (segment : String) (line count : Nat)
  deriving DecidableEq, Repr

def Fault.message : Fault → String
  | .integer segment fault => fault.message segment
  | .outOfRange field total line =>
      field.label ++ " out of range (" ++ toString total ++ ") on line " ++ toString line
  | .fieldCount segment line count =>
      "segment " ++ Quoted.text segment ++ " on line " ++ toString line ++ " has " ++
        toString count ++ " fields (expected 1, 4 or 5)"

structure Totals where
  source : UInt32
  line : UInt32
  column : UInt32
  name : UInt32
  deriving DecidableEq, Repr

def Totals.start : Totals := ⟨0, 0, 0, 0⟩

def segmentDeltas (totals : Totals) (column : UInt32) (segment : Segment) : List Int :=
  let moved : Int := segment.generatedColumn.toNat - column.toNat
  match segment.origin with
  | none => [moved]
  | some origin =>
      let place : List Int :=
        [moved, origin.source.toNat - totals.source.toNat, origin.line.toNat - totals.line.toNat,
          origin.column.toNat - totals.column.toNat]
      match origin.name with
      | none => place
      | some name => place ++ [(name.toNat - totals.name.toNat : Int)]

def Totals.after (totals : Totals) (segment : Segment) : Totals :=
  match segment.origin with
  | none => totals
  | some origin =>
      ⟨origin.source, origin.line, origin.column, origin.name.getD totals.name⟩

def encodeSegments (totals : Totals) (column : UInt32) : Line → List (List Char)
  | [] => []
  | segment :: line =>
      Vlq.encodeAll (segmentDeltas totals column segment) ::
        encodeSegments (totals.after segment) segment.generatedColumn line

def encodeLines (totals : Totals) : Mappings → List (List Char)
  | [] => []
  | line :: lines =>
      List.intercalate [','] (encodeSegments totals 0 line) ::
        encodeLines (line.foldl Totals.after totals) lines

def encode (lines : Mappings) : String :=
  String.ofList (List.intercalate [';'] (encodeLines .start lines))

/-- A total is accepted if it fits thirty-two bits. -/
def advance (field : Field) (line : Nat) (total : UInt32) (delta : Int) : Except Fault UInt32 :=
  let moved : Int := total.toNat + delta
  if 0 ≤ moved ∧ moved < UInt32.size then .ok (UInt32.ofNat moved.toNat)
  else .error (.outOfRange field moved line)

theorem to_nat_advance {field : Field} {line : Nat} {total moved : UInt32} {delta : Int}
    (accepted : advance field line total delta = .ok moved) :
    (moved.toNat : Int) = total.toNat + delta := by
  simp only [advance] at accepted
  split at accepted
  · next inRange =>
      simp only [Except.ok.injEq] at accepted
      subst accepted
      have small : ((total.toNat : Int) + delta).toNat < UInt32.size := by omega
      rw [UInt32.toNat_ofNat_of_lt' small]
      omega
  · simp at accepted

def readPlace (line : Nat) (totals : Totals) (source sourceLine sourceColumn : Int) :
    Except Fault Origin := do
  let source ← advance .sourceIndex line totals.source source
  let sourceLine ← advance .sourceLine line totals.line sourceLine
  let sourceColumn ← advance .sourceColumn line totals.column sourceColumn
  return ⟨source, sourceLine, sourceColumn, none⟩

def readSegment (line : Nat) (totals : Totals) (column : UInt32) (text : List Char) :
    Except Fault Segment :=
  match Vlq.decode text with
  | .error fault => .error (.integer (String.ofList text) fault)
  | .ok [] => .error (.fieldCount (String.ofList text) line 0)
  | .ok (moved :: fields) => do
      let column ← advance .generatedColumn line column moved
      match fields with
      | [] => return ⟨column, none⟩
      | [source, sourceLine, sourceColumn] =>
          let place ← readPlace line totals source sourceLine sourceColumn
          return ⟨column, some place⟩
      | [source, sourceLine, sourceColumn, name] =>
          let place ← readPlace line totals source sourceLine sourceColumn
          let name ← advance .nameIndex line totals.name name
          return ⟨column, some ⟨place.source, place.line, place.column, some name⟩⟩
      | _ => .error (.fieldCount (String.ofList text) line (fields.length + 1))

def readSegments (line : Nat) (totals : Totals) (column : UInt32) :
    List (List Char) → Except Fault Line
  | [] => .ok []
  | text :: texts => do
      let segment ← readSegment line totals column text
      let segments ← readSegments line (totals.after segment) segment.generatedColumn texts
      return segment :: segments

/-- The pieces of a line between commas; empty ones count for nothing. -/
def pieces (line : List Char) : List (List Char) := (line.splitOn ',').filter (· ≠ [])

def readLines (line : Nat) (totals : Totals) : List (List Char) → Except Fault Mappings
  | [] => .ok []
  | text :: texts => do
      let segments ← readSegments line totals 0 (pieces text)
      let lines ← readLines (line + 1) (segments.foldl Totals.after totals) texts
      return segments :: lines

def decode (text : String) : Except Fault Mappings :=
  readLines 0 .start (text.toList.splitOn ';')

end MapChain.Mappings
