import MapChain.Mappings.Text
import MapChain.Proofs.Mappings.Groups
import Mathlib.Data.List.Forall2

/-!
What reading the text of a mapping comes to. The segments of a text are exactly those whose
differences its pieces spell. Main statement: a text is read as some lines if and only if it spells
the differences of these lines.
-/

set_option autoImplicit false

namespace MapChain.Mappings

variable {line : Nat} {totals : Totals} {column : UInt32}

theorem bind_eq_ok_iff {Error Value Result : Type} {step : Except Error Value}
    {next : Value → Except Error Result} {result : Result} :
    step >>= next = .ok result ↔ ∃ value, step = .ok value ∧ next value = .ok result := by
  cases step with
  | error fault =>
      constructor
      · intro completed
        cases completed
      · rintro ⟨value, completed, -⟩
        cases completed
  | ok value =>
      constructor
      · intro completed
        exact ⟨value, rfl, completed⟩
      · rintro ⟨_, same, completed⟩
        cases same
        exact completed

theorem advance_to (field : Field) (line : Nat) (total value : UInt32) :
    advance field line total (value.toNat - total.toNat) = .ok value := by
  have bound := value.toNat_lt
  have sum : (total.toNat : Int) + (value.toNat - total.toNat) = value.toNat := by omega
  have size : UInt32.size = 2 ^ 32 := rfl
  unfold advance
  simp only [sum]
  rw [if_pos (by omega), Int.toNat_natCast, UInt32.ofNat_toNat]

theorem advance_eq_ok_iff {field : Field} {total moved : UInt32} {delta : Int} :
    advance field line total delta = .ok moved ↔ delta = moved.toNat - total.toNat := by
  constructor
  · intro accepted
    have sum := to_nat_advance accepted
    omega
  · rintro rfl
    exact advance_to field line total moved

theorem read_place_eq_ok_iff {source sourceLine sourceColumn : Int} {place : Origin} :
    readPlace line totals source sourceLine sourceColumn = .ok place ↔
      source = place.source.toNat - totals.source.toNat ∧
        sourceLine = place.line.toNat - totals.line.toNat ∧
        sourceColumn = place.column.toNat - totals.column.toNat ∧ place.name = none := by
  simp only [readPlace, bind_eq_ok_iff, advance_eq_ok_iff]
  constructor
  · rintro ⟨_, first, _, second, _, third, same⟩
    cases same
    exact ⟨first, second, third, rfl⟩
  · rintro ⟨first, second, third, nameless⟩
    refine ⟨_, first, _, second, _, third, ?_⟩
    rw [← nameless]
    rfl

theorem read_segment_of_spells {text : List Char} {segment : Segment}
    (spelled : Vlq.Spells text (segmentDeltas totals column segment)) :
    readSegment line totals column text = .ok segment := by
  unfold readSegment
  rw [Vlq.decode_eq_ok_iff.2 spelled]
  obtain ⟨generated, origin⟩ := segment
  cases origin with
  | none =>
      simp only [segmentDeltas, advance_to]
      rfl
  | some origin =>
      obtain ⟨source, sourceLine, sourceColumn, name⟩ := origin
      cases name with
      | none =>
          simp only [segmentDeltas, readPlace, advance_to]
          rfl
      | some name =>
          simp only [segmentDeltas, List.cons_append, List.nil_append, readPlace, advance_to]
          rfl

theorem spells_of_read_segment {text : List Char} {segment : Segment}
    (read : readSegment line totals column text = .ok segment) :
    Vlq.Spells text (segmentDeltas totals column segment) := by
  unfold readSegment at read
  cases decoded : Vlq.decode text with
  | error fault =>
      rw [decoded] at read
      cases read
  | ok fields =>
      rw [Vlq.decode_eq_ok_iff] at decoded
      rw [Vlq.decode_eq_ok_iff.2 decoded] at read
      cases fields with
      | nil => cases read
      | cons moved fields =>
          obtain ⟨generated, first, placed⟩ := bind_eq_ok_iff.1 read
          rw [advance_eq_ok_iff] at first
          rw [first] at decoded
          split at placed
          · cases placed
            exact decoded
          · obtain ⟨place, located, ended⟩ := bind_eq_ok_iff.1 placed
            obtain ⟨source, sourceLine, sourceColumn, nameless⟩ :=
              read_place_eq_ok_iff.1 located
            cases ended
            rw [source, sourceLine, sourceColumn] at decoded
            simp only [segmentDeltas, nameless]
            exact decoded
          · obtain ⟨place, located, named⟩ := bind_eq_ok_iff.1 placed
            obtain ⟨source, sourceLine, sourceColumn, -⟩ := read_place_eq_ok_iff.1 located
            obtain ⟨name, last, ended⟩ := bind_eq_ok_iff.1 named
            rw [advance_eq_ok_iff] at last
            cases ended
            rw [source, sourceLine, sourceColumn, last] at decoded
            exact decoded
          · cases placed

theorem read_segment_eq_ok_iff {text : List Char} {segment : Segment} :
    readSegment line totals column text = .ok segment ↔
      Vlq.Spells text (segmentDeltas totals column segment) :=
  ⟨spells_of_read_segment, read_segment_of_spells⟩

def lineDeltas (totals : Totals) (column : UInt32) : Line → List (List Int)
  | [] => []
  | segment :: segments =>
      segmentDeltas totals column segment ::
        lineDeltas (totals.after segment) segment.generatedColumn segments

def deltas (totals : Totals) : Mappings → List (List (List Int))
  | [] => []
  | segments :: lines =>
      lineDeltas totals 0 segments :: deltas (segments.foldl Totals.after totals) lines

/-- The pieces of each text spell the fields of one row. -/
def Spelled (texts : List (List Char)) (rows : List (List (List Int))) : Prop :=
  List.Forall₂ (fun text row => List.Forall₂ Vlq.Spells (pieces text) row) texts rows

theorem read_segments_eq_ok_iff {texts : List (List Char)} {segments : Line} :
    readSegments line totals column texts = .ok segments ↔
      List.Forall₂ Vlq.Spells texts (lineDeltas totals column segments) := by
  induction texts generalizing totals column segments with
  | nil =>
      cases segments with
      | nil => exact ⟨fun _ => .nil, fun _ => rfl⟩
      | cons segment segments =>
          constructor
          · intro read
            cases read
          · intro spelled
            cases spelled
  | cons text texts induction =>
      simp only [readSegments, bind_eq_ok_iff, read_segment_eq_ok_iff, induction]
      constructor
      · rintro ⟨segment, first, later, rest, same⟩
        cases same
        exact .cons first rest
      · intro spelled
        cases segments with
        | nil => cases spelled
        | cons segment segments =>
            cases spelled with
            | cons first rest => exact ⟨segment, first, segments, rest, rfl⟩

theorem read_lines_eq_ok_iff {texts : List (List Char)} {lines : Mappings} :
    readLines line totals texts = .ok lines ↔ Spelled texts (deltas totals lines) := by
  unfold Spelled
  induction texts generalizing line totals lines with
  | nil =>
      cases lines with
      | nil => exact ⟨fun _ => .nil, fun _ => rfl⟩
      | cons segments lines =>
          constructor
          · intro read
            cases read
          · intro spelled
            cases spelled
  | cons text texts induction =>
      simp only [readLines, bind_eq_ok_iff, read_segments_eq_ok_iff, induction]
      constructor
      · rintro ⟨segments, first, later, rest, same⟩
        cases same
        exact .cons first rest
      · intro spelled
        cases lines with
        | nil => cases spelled
        | cons segments lines =>
            cases spelled with
            | cons first rest => exact ⟨segments, first, lines, rest, rfl⟩

theorem decode_eq_ok_iff {text : String} {lines : Mappings} :
    decode text = .ok lines ↔ Spelled (text.toList.splitOn ';') (deltas .start lines) :=
  read_lines_eq_ok_iff

theorem length_deltas (totals : Totals) (lines : Mappings) :
    (deltas totals lines).length = lines.length := by
  induction lines generalizing totals with
  | nil => rfl
  | cons segments lines induction => simp [deltas, induction]

theorem decoded_ne_nil {text : String} {lines : Mappings} (read : decode text = .ok lines) :
    lines ≠ [] := by
  have same := (decode_eq_ok_iff.1 read).length_eq
  have split := List.splitOn_ne_nil ';' text.toList
  rw [length_deltas] at same
  rw [← List.length_pos_iff] at split ⊢
  omega

end MapChain.Mappings
