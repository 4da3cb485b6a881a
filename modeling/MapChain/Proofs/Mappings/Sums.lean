import MapChain.Proofs.Mappings.Reading
import Mathlib.Algebra.BigOperators.Group.List.Basic

/-!
Running totals as sums. The total of a field after a segment is the sum of that field over the
segments so far: on their line for the generated column, in the whole text for the others. Main
statements: the differences of any lines add up to these lines, and fields whose sums stay within
thirty-two bits are the differences of some lines.
-/

set_option autoImplicit false

namespace MapChain.Mappings

/-- The sum of one field over the segments that have it. -/
def fieldSum (place : Nat) (segments : List (List Int)) : Int :=
  (segments.filterMap (·[place]?)).sum

def lineUpTo (rows : List (List (List Int))) (line segment : Nat) : List (List Int) :=
  (rows[line]?.getD []).take (segment + 1)

def textUpTo (rows : List (List (List Int))) (line segment : Nat) : List (List Int) :=
  (rows.take line).flatten ++ lineUpTo rows line segment

def Fits (sum : Int) : Prop := 0 ≤ sum ∧ sum ≤ 4294967295

/-- Every total fits after every segment. -/
def InRange (rows : List (List (List Int))) : Prop :=
  ∀ line segment, Fits (fieldSum 0 (lineUpTo rows line segment)) ∧
    ∀ place, 1 ≤ place → place ≤ 4 → Fits (fieldSum place (textUpTo rows line segment))

/-- Every segment has one, four or five fields. -/
def Counted (rows : List (List (List Int))) : Prop :=
  ∀ row ∈ rows, ∀ fields ∈ row, fields.length = 1 ∨ fields.length = 4 ∨ fields.length = 5

/-- A segment is what the fields so far add up to, and has what its own fields give it. -/
def AddsUp (line text : List (List Int)) (fields : List Int) (segment : Segment) : Prop :=
  segment.generatedColumn.toNat = fieldSum 0 line ∧
    match segment.origin with
    | none => fields.length = 1
    | some origin =>
        origin.source.toNat = fieldSum 1 text ∧ origin.line.toNat = fieldSum 2 text ∧
          origin.column.toNat = fieldSum 3 text ∧
          match origin.name with
          | none => fields.length = 4
          | some name => fields.length = 5 ∧ name.toNat = fieldSum 4 text

/-- There is a line for every row and a segment for all fields in it, and they add up. -/
def Sums (rows : List (List (List Int))) (lines : Mappings) : Prop :=
  lines.length = rows.length ∧
    ∀ number row segments, rows[number]? = some row → lines[number]? = some segments →
      segments.length = row.length ∧
        ∀ index fields segment, row[index]? = some fields → segments[index]? = some segment →
          AddsUp (lineUpTo rows number index) (textUpTo rows number index) fields segment

variable {totals : Totals} {column : UInt32} {place : Nat}

theorem field_sum_cons (place : Nat) (fields : List Int) (segments : List (List Int)) :
    fieldSum place (fields :: segments) = fields[place]?.getD 0 + fieldSum place segments := by
  unfold fieldSum
  cases present : fields[place]? <;> simp [present]

theorem field_sum_append (place : Nat) (front back : List (List Int)) :
    fieldSum place (front ++ back) = fieldSum place front + fieldSum place back := by
  rw [fieldSum, List.filterMap_append, List.sum_append]
  rfl

def Totals.of (totals : Totals) : Nat → Int
  | 1 => totals.source.toNat
  | 2 => totals.line.toNat
  | 3 => totals.column.toNat
  | 4 => totals.name.toNat
  | _ => 0

theorem fits_word (word : UInt32) : Fits word.toNat := by
  have bound := word.toNat_lt
  constructor <;> omega

theorem Totals.fits (totals : Totals) (place : Nat) : Fits (totals.of place) := by
  unfold Totals.of
  split
  · exact fits_word totals.source
  · exact fits_word totals.line
  · exact fits_word totals.column
  · exact fits_word totals.name
  · exact ⟨le_rfl, by decide⟩

theorem Totals.of_start (place : Nat) : Totals.start.of place = 0 := by
  unfold Totals.of
  split <;> rfl

theorem Totals.of_after (totals : Totals) (column : UInt32) (segment : Segment)
    (running : place ≠ 0) :
    (totals.after segment).of place =
      totals.of place + (segmentDeltas totals column segment)[place]?.getD 0 := by
  obtain ⟨generated, origin⟩ := segment
  cases origin with
  | none =>
      have single : (segmentDeltas totals column ⟨generated, none⟩)[place]? = none :=
        List.getElem?_eq_none (Nat.one_le_iff_ne_zero.2 running)
      rw [single, Option.getD_none, add_zero]
      rfl
  | some origin =>
      obtain ⟨source, sourceLine, sourceColumn, name⟩ := origin
      cases name <;> match place with
        | 0 => exact absurd rfl running
        | 1 | 2 | 3 | 4 => simp [Totals.after, Totals.of, segmentDeltas]
        | _ + 5 => simp [Totals.of, segmentDeltas]

/-- The differences of a line add up to how far it has moved a total. -/
theorem field_sum_line_deltas (totals : Totals) (column : UInt32) (line : Line)
    (running : place ≠ 0) :
    totals.of place + fieldSum place (lineDeltas totals column line) =
      (line.foldl Totals.after totals).of place := by
  induction line generalizing totals column with
  | nil => simp [lineDeltas, fieldSum]
  | cons segment line induction =>
      rw [lineDeltas, field_sum_cons, ← add_assoc, ← totals.of_after column segment running,
        induction, List.foldl_cons]

theorem field_sum_deltas (totals : Totals) (lines : Mappings) (running : place ≠ 0) :
    totals.of place + fieldSum place (deltas totals lines).flatten =
      (lines.flatten.foldl Totals.after totals).of place := by
  induction lines generalizing totals with
  | nil => simp [deltas, fieldSum]
  | cons line lines induction =>
      rw [deltas, List.flatten_cons, List.flatten_cons, field_sum_append, ← add_assoc,
        field_sum_line_deltas totals 0 line running, induction, List.foldl_append]

def columnAfter (column : UInt32) (line : Line) : UInt32 :=
  line.foldl (fun _ segment => segment.generatedColumn) column

theorem field_sum_columns (totals : Totals) (column : UInt32) (line : Line) :
    column.toNat + fieldSum 0 (lineDeltas totals column line) =
      (columnAfter column line).toNat := by
  induction line generalizing totals column with
  | nil => simp [lineDeltas, fieldSum, columnAfter]
  | cons segment line induction =>
      have first : (segmentDeltas totals column segment)[0]?.getD 0 =
          (segment.generatedColumn.toNat : Int) - column.toNat := by
        unfold segmentDeltas
        split
        · rfl
        · split <;> rfl
      have later := induction (totals.after segment) segment.generatedColumn
      rw [lineDeltas, field_sum_cons, first, ← add_assoc, add_sub_cancel, later]
      rfl

theorem line_deltas_take (totals : Totals) (column : UInt32) (line : Line) (count : Nat) :
    (lineDeltas totals column line).take count = lineDeltas totals column (line.take count) := by
  induction count generalizing totals column line with
  | zero => rfl
  | succ count induction =>
      cases line with
      | nil => rfl
      | cons segment line =>
          simp only [lineDeltas, List.take_succ_cons]
          rw [induction]

theorem deltas_take (totals : Totals) (lines : Mappings) (count : Nat) :
    (deltas totals lines).take count = deltas totals (lines.take count) := by
  induction count generalizing totals lines with
  | zero => rfl
  | succ count induction =>
      cases lines with
      | nil => rfl
      | cons line lines =>
          simp only [deltas, List.take_succ_cons]
          rw [induction]

theorem deltas_get (totals : Totals) (lines : Mappings) (number : Nat) :
    (deltas totals lines)[number]?.getD [] =
      lineDeltas ((lines.take number).flatten.foldl Totals.after totals) 0
        (lines[number]?.getD []) := by
  induction lines generalizing totals number with
  | nil => rfl
  | cons line lines induction =>
      cases number with
      | zero => rfl
      | succ number =>
          simp only [deltas, List.getElem?_cons_succ, List.take_succ_cons, List.flatten_cons,
            List.foldl_append]
          exact induction _ number

def segmentsUpTo (lines : Mappings) (number index : Nat) : Line :=
  (lines.take number).flatten ++ (lines[number]?.getD []).take (index + 1)

theorem field_sum_text_up_to (lines : Mappings) (number index : Nat) (running : place ≠ 0) :
    fieldSum place (textUpTo (deltas .start lines) number index) =
      ((segmentsUpTo lines number index).foldl Totals.after .start).of place := by
  have above := field_sum_deltas .start (lines.take number) running
  have here := field_sum_line_deltas ((lines.take number).flatten.foldl Totals.after .start) 0
    ((lines[number]?.getD []).take (index + 1)) running
  rw [Totals.of_start, zero_add] at above
  rw [textUpTo, lineUpTo, deltas_get, deltas_take, line_deltas_take, field_sum_append, above, here,
    segmentsUpTo, List.foldl_append]

theorem field_sum_line_up_to (lines : Mappings) (number index : Nat) :
    fieldSum 0 (lineUpTo (deltas .start lines) number index) =
      (columnAfter 0 ((lines[number]?.getD []).take (index + 1))).toNat := by
  have moved := field_sum_columns ((lines.take number).flatten.foldl Totals.after .start) 0
    ((lines[number]?.getD []).take (index + 1))
  rw [UInt32.toNat_zero, Nat.cast_zero, zero_add] at moved
  rw [lineUpTo, deltas_get, line_deltas_take, moved]

theorem in_range_deltas (lines : Mappings) : InRange (deltas .start lines) := by
  intro number index
  constructor
  · rw [field_sum_line_up_to]
    exact fits_word _
  · intro place running _
    rw [field_sum_text_up_to lines number index (Nat.one_le_iff_ne_zero.1 running)]
    exact Totals.fits _ place

theorem length_segment_deltas (totals : Totals) (column : UInt32) (segment : Segment) :
    (segmentDeltas totals column segment).length =
      match segment.origin with
      | none => 1
      | some origin => if origin.name.isNone then 4 else 5 := by
  obtain ⟨generated, origin⟩ := segment
  cases origin with
  | none => rfl
  | some origin =>
      obtain ⟨source, sourceLine, sourceColumn, name⟩ := origin
      cases name <;> rfl

theorem length_line_deltas (totals : Totals) (column : UInt32) (line : Line) :
    (lineDeltas totals column line).length = line.length := by
  induction line generalizing totals column with
  | nil => rfl
  | cons segment line induction => simp [lineDeltas, induction]

theorem of_line_deltas_get {segments : Line} {index : Nat} {fields : List Int}
    (present : (lineDeltas totals column segments)[index]? = some fields) :
    ∃ segment totals column, segments[index]? = some segment ∧
      fields = segmentDeltas totals column segment := by
  induction segments generalizing totals column index with
  | nil => cases present
  | cons segment segments induction =>
      cases index with
      | zero =>
          cases present
          exact ⟨segment, totals, column, rfl, rfl⟩
      | succ index => exact induction present

theorem counted_deltas (totals : Totals) (lines : Mappings) : Counted (deltas totals lines) := by
  intro row member fields inside
  obtain ⟨number, there⟩ := List.getElem?_of_mem member
  obtain ⟨index, present⟩ := List.getElem?_of_mem inside
  have same := deltas_get totals lines number
  rw [there, Option.getD_some] at same
  rw [same] at present
  obtain ⟨segment, before, column, -, rfl⟩ := of_line_deltas_get present
  rw [length_segment_deltas]
  split
  · exact Or.inl rfl
  · split
    · exact Or.inr (Or.inl rfl)
    · exact Or.inr (Or.inr rfl)

theorem sums_deltas (lines : Mappings) : Sums (deltas .start lines) lines := by
  refine ⟨(length_deltas .start lines).symm, ?_⟩
  intro number row line there present
  have same := deltas_get .start lines number
  rw [there, present, Option.getD_some, Option.getD_some] at same
  refine ⟨?_, ?_⟩
  · rw [same, length_line_deltas]
  · intro index fields segment given found
    rw [same] at given
    obtain ⟨other, before, column, known, rfl⟩ := of_line_deltas_get given
    rw [found] at known
    cases known
    have upTo : (lines[number]?.getD []).take (index + 1) = line.take index ++ [segment] := by
      rw [present, Option.getD_some, List.take_add_one, found, Option.toList_some]
    have columns := field_sum_line_up_to lines number index
    have totals {place : Nat} (running : place ≠ 0) :=
      field_sum_text_up_to lines number index running
    rw [upTo, columnAfter, List.foldl_append, List.foldl_cons, List.foldl_nil] at columns
    simp only [segmentsUpTo, upTo, List.foldl_append, List.foldl_cons, List.foldl_nil] at totals
    refine ⟨columns.symm, ?_⟩
    have counted := length_segment_deltas before column segment
    unfold Totals.after at totals
    cases given : segment.origin with
    | none => rwa [given] at counted
    | some origin =>
        simp only [given] at totals counted ⊢
        refine ⟨(totals Nat.one_ne_zero).symm, (totals (by decide : 2 ≠ 0)).symm,
          (totals (by decide : 3 ≠ 0)).symm, ?_⟩
        cases named : origin.name with
        | none => rwa [named] at counted
        | some name =>
            have last := totals (by decide : 4 ≠ 0)
            rw [named] at counted last
            exact ⟨counted, last.symm⟩

theorem exists_word {total : UInt32} {delta : Int} (fits : Fits (total.toNat + delta)) :
    ∃ word : UInt32, delta = word.toNat - total.toNat := by
  obtain ⟨low, high⟩ := fits
  have small : ((total.toNat : Int) + delta).toNat < UInt32.size := by
    have size : UInt32.size = 4294967296 := rfl
    omega
  refine ⟨UInt32.ofNat ((total.toNat : Int) + delta).toNat, ?_⟩
  rw [UInt32.toNat_ofNat_of_lt' small]
  omega

theorem exists_segment {fields : List Int}
    (counted : fields.length = 1 ∨ fields.length = 4 ∨ fields.length = 5)
    (columnFits : Fits (column.toNat + fields[0]?.getD 0))
    (fits : ∀ place, 1 ≤ place → place ≤ 4 → Fits (totals.of place + fields[place]?.getD 0)) :
    ∃ segment, segmentDeltas totals column segment = fields := by
  obtain ⟨source, sourceFits⟩ := exists_word (fits 1 (by decide) (by decide))
  obtain ⟨sourceLine, lineFits⟩ := exists_word (fits 2 (by decide) (by decide))
  obtain ⟨sourceColumn, placeFits⟩ := exists_word (fits 3 (by decide) (by decide))
  obtain ⟨name, nameFits⟩ := exists_word (fits 4 (by decide) (by decide))
  obtain ⟨generated, moved⟩ := exists_word columnFits
  rcases counted with one | four | five
  · obtain ⟨first, rfl⟩ := List.length_eq_one_iff.1 one
    cases moved
    exact ⟨⟨generated, none⟩, rfl⟩
  · match fields with
    | [first, second, third, fourth] =>
        cases moved
        cases sourceFits
        cases lineFits
        cases placeFits
        exact ⟨⟨generated, some ⟨source, sourceLine, sourceColumn, none⟩⟩, rfl⟩
  · match fields with
    | [first, second, third, fourth, fifth] =>
        cases moved
        cases sourceFits
        cases lineFits
        cases placeFits
        cases nameFits
        exact ⟨⟨generated, some ⟨source, sourceLine, sourceColumn, some name⟩⟩, rfl⟩

theorem exists_line {row : List (List Int)}
    (counted : ∀ fields ∈ row, fields.length = 1 ∨ fields.length = 4 ∨ fields.length = 5)
    (columnsFit : ∀ index, Fits (column.toNat + fieldSum 0 (row.take (index + 1))))
    (fit : ∀ index place, 1 ≤ place → place ≤ 4 →
      Fits (totals.of place + fieldSum place (row.take (index + 1)))) :
    ∃ line, lineDeltas totals column line = row := by
  induction row generalizing totals column with
  | nil => exact ⟨[], rfl⟩
  | cons fields row induction =>
      have alone (place : Nat) :
          fieldSum place ((fields :: row).take (0 + 1)) = fields[place]?.getD 0 := by
        rw [zero_add, List.take_succ_cons, List.take_zero, field_sum_cons]
        exact add_zero _
      have firstColumn := columnsFit 0
      rw [alone] at firstColumn
      have first (place : Nat) (low : 1 ≤ place) (high : place ≤ 4) := fit 0 place low high
      simp only [alone] at first
      obtain ⟨segment, same⟩ :=
        exists_segment (counted fields List.mem_cons_self) firstColumn first
      have started : (column.toNat : Int) + fields[0]?.getD 0 = segment.generatedColumn.toNat := by
        have moved := field_sum_columns totals column [segment]
        rw [lineDeltas, field_sum_cons, same] at moved
        simpa [fieldSum, lineDeltas, columnAfter] using moved
      obtain ⟨line, rest⟩ :
          ∃ line, lineDeltas (totals.after segment) segment.generatedColumn line = row := by
        apply induction
        · exact fun other member => counted other (List.mem_cons_of_mem fields member)
        · intro index
          have next := columnsFit (index + 1)
          rw [List.take_succ_cons, field_sum_cons, ← add_assoc, started] at next
          exact next
        · intro index place low high
          have next := fit (index + 1) place low high
          have running : place ≠ 0 := Nat.one_le_iff_ne_zero.1 low
          rw [List.take_succ_cons, field_sum_cons, ← add_assoc, ← same,
            ← totals.of_after column segment running] at next
          exact next
      refine ⟨segment :: line, ?_⟩
      rw [lineDeltas, same, rest]

theorem exists_lines {rows : List (List (List Int))} (counted : Counted rows)
    (columnsFit : ∀ number index, Fits (fieldSum 0 (lineUpTo rows number index)))
    (fit : ∀ number index place, 1 ≤ place → place ≤ 4 →
      Fits (totals.of place + fieldSum place (textUpTo rows number index))) :
    ∃ lines, deltas totals lines = rows := by
  induction rows generalizing totals with
  | nil => exact ⟨[], rfl⟩
  | cons row rows induction =>
      obtain ⟨line, same⟩ : ∃ line, lineDeltas totals 0 line = row := by
        apply exists_line (counted row List.mem_cons_self)
        · intro index
          rw [UInt32.toNat_zero, Nat.cast_zero, zero_add]
          exact columnsFit 0 index
        · intro index place low high
          exact fit 0 index place low high
      obtain ⟨lines, rest⟩ : ∃ lines, deltas (line.foldl Totals.after totals) lines = rows := by
        apply induction
        · exact fun other member => counted other (List.mem_cons_of_mem row member)
        · exact fun number index => columnsFit (number + 1) index
        · intro number index place low high
          have next := fit (number + 1) index place low high
          have running : place ≠ 0 := Nat.one_le_iff_ne_zero.1 low
          have split : textUpTo (row :: rows) (number + 1) index =
              row ++ textUpTo rows number index := by
            simp [textUpTo, lineUpTo]
          rw [split, field_sum_append, ← add_assoc, ← same,
            field_sum_line_deltas totals 0 line running] at next
          exact next
      refine ⟨line :: lines, ?_⟩
      rw [deltas, same, rest]

/-- Fields whose sums fit are the differences of some lines. -/
theorem exists_lines_of_in_range {rows : List (List (List Int))} (counted : Counted rows)
    (inRange : InRange rows) : ∃ lines, deltas .start lines = rows := by
  apply exists_lines counted
  · exact fun number index => (inRange number index).1
  · intro number index place low high
    rw [Totals.of_start, zero_add]
    exact (inRange number index).2 place low high

end MapChain.Mappings
