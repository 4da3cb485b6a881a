import MapChain.Proofs.Mappings.Sums

/-!
Which texts are mappings. Main statement: a text is read exactly if its pieces are spelled out of
one, four or five numbers and all totals stay in their range; then it is read as the sums of these
numbers, and otherwise the fault that is found is one that the text has.
-/

set_option autoImplicit false

namespace MapChain

theorem Vlq.Spells.unique {text : List Char} {values others : List Int}
    (first : Vlq.Spells text values) (second : Vlq.Spells text others) : values = others := by
  have read := Vlq.decode_eq_ok_iff.2 first
  rw [Vlq.decode_eq_ok_iff.2 second] at read
  cases read
  rfl

namespace Mappings

variable {line : Nat} {totals : Totals} {column : UInt32} {fault : Fault}

theorem Spelled.unique {texts : List (List Char)} {rows others : List (List (List Int))}
    (first : Spelled texts rows) (second : Spelled texts others) : rows = others := by
  have spells : Relator.RightUnique Vlq.Spells := fun _ _ _ one other => one.unique other
  have row : Relator.RightUnique fun text row => List.Forall₂ Vlq.Spells (pieces text) row :=
    fun _ _ _ one other => spells.forall₂ one other
  exact row.forall₂ first second

theorem bind_eq_error_iff {Error Value Result : Type} {step : Except Error Value}
    {next : Value → Except Error Result} {fault : Error} :
    step >>= next = .error fault ↔
      step = .error fault ∨ ∃ value, step = .ok value ∧ next value = .error fault := by
  cases step with
  | error other =>
      constructor
      · intro failed
        cases failed
        exact Or.inl rfl
      · rintro (failed | ⟨value, completed, -⟩)
        · cases failed
          rfl
        · cases completed
  | ok value =>
      constructor
      · intro failed
        exact Or.inr ⟨value, rfl, failed⟩
      · rintro (failed | ⟨_, same, failed⟩)
        · cases failed
        · cases same
          exact failed

/-- A fault in a piece of a line is one that the piece has, or a total that leaves its range. -/
def Fault.Blames (line : Nat) (piece : List Char) : Fault → Prop
  | .integer segment fault => segment = String.ofList piece ∧ Vlq.decode piece = .error fault
  | .outOfRange _ total number => number = line ∧ ¬Fits total
  | .fieldCount segment number count => number = line ∧ segment = String.ofList piece ∧
      ∃ fields, Vlq.Spells piece fields ∧ fields.length = count ∧ count ≠ 0 ∧ count ≠ 1 ∧
        count ≠ 4 ∧ count ≠ 5

theorem blames_of_advance {field : Field} {total : UInt32} {delta : Int} {piece : List Char}
    (failed : advance field line total delta = .error fault) : fault.Blames line piece := by
  simp only [advance] at failed
  have size : (UInt32.size : Int) = 4294967296 := rfl
  split at failed
  · cases failed
  next outside =>
    cases failed
    refine ⟨rfl, ?_⟩
    rintro ⟨low, high⟩
    omega

theorem blames_of_read_place {source sourceLine sourceColumn : Int} {piece : List Char}
    (failed : readPlace line totals source sourceLine sourceColumn = .error fault) :
    fault.Blames line piece := by
  unfold readPlace at failed
  rcases bind_eq_error_iff.1 failed with first | ⟨_, -, failed⟩
  · exact blames_of_advance first
  rcases bind_eq_error_iff.1 failed with second | ⟨_, -, failed⟩
  · exact blames_of_advance second
  rcases bind_eq_error_iff.1 failed with third | ⟨_, -, failed⟩
  · exact blames_of_advance third
  · cases failed

theorem blames_of_read_segment {piece : List Char} (written : piece ≠ [])
    (failed : readSegment line totals column piece = .error fault) :
    fault.Blames line piece := by
  unfold readSegment at failed
  cases decoded : Vlq.decode piece with
  | error other =>
      rw [decoded] at failed
      cases failed
      exact ⟨rfl, decoded⟩
  | ok fields =>
      have spelled := Vlq.decode_eq_ok_iff.1 decoded
      rw [decoded] at failed
      cases fields with
      | nil => exact absurd rfl (spelled.ne_nil written)
      | cons moved fields =>
          rcases bind_eq_error_iff.1 failed with first | ⟨_, -, placed⟩
          · exact blames_of_advance first
          split at placed
          · cases placed
          · rcases bind_eq_error_iff.1 placed with place | ⟨_, -, ended⟩
            · exact blames_of_read_place place
            · cases ended
          · rcases bind_eq_error_iff.1 placed with place | ⟨_, -, named⟩
            · exact blames_of_read_place place
            rcases bind_eq_error_iff.1 named with name | ⟨_, -, ended⟩
            · exact blames_of_advance name
            · cases ended
          next bare three four =>
            cases placed
            refine ⟨rfl, rfl, _, spelled, rfl, ?_⟩
            match fields with
            | [] => exact absurd rfl bare
            | [_] | [_, _] => simp
            | [_, _, _] => exact absurd rfl (three _ _ _)
            | [_, _, _, _] => exact absurd rfl (four _ _ _ _)
            | _ :: _ :: _ :: _ :: _ :: _ => simp

theorem blames_of_read_segments {texts : List (List Char)} (written : ∀ piece ∈ texts, piece ≠ [])
    (failed : readSegments line totals column texts = .error fault) :
    ∃ piece ∈ texts, fault.Blames line piece := by
  induction texts generalizing totals column with
  | nil => cases failed
  | cons piece texts induction =>
      rw [readSegments] at failed
      rcases bind_eq_error_iff.1 failed with first | ⟨segment, -, failed⟩
      · have filled : piece ≠ [] := written piece List.mem_cons_self
        exact ⟨piece, List.mem_cons_self, blames_of_read_segment filled first⟩
      rcases bind_eq_error_iff.1 failed with later | ⟨_, -, ended⟩
      · obtain ⟨other, member, blames⟩ :=
          induction (fun other member => written other (List.mem_cons_of_mem piece member)) later
        exact ⟨other, List.mem_cons_of_mem piece member, blames⟩
      · cases ended

theorem blames_of_read_lines {texts : List (List Char)}
    (failed : readLines line totals texts = .error fault) :
    ∃ number text piece, texts[number]? = some text ∧ piece ∈ pieces text ∧
      fault.Blames (line + number) piece := by
  induction texts generalizing line totals with
  | nil => cases failed
  | cons text texts induction =>
      rw [readLines] at failed
      rcases bind_eq_error_iff.1 failed with first | ⟨segments, -, failed⟩
      · have written : ∀ piece ∈ pieces text, piece ≠ [] := fun piece member =>
          of_decide_eq_true (List.mem_filter.1 member).2
        obtain ⟨piece, member, blames⟩ := blames_of_read_segments written first
        exact ⟨0, text, piece, rfl, member, blames⟩
      rcases bind_eq_error_iff.1 failed with later | ⟨_, -, ended⟩
      · obtain ⟨number, other, piece, present, member, blames⟩ := induction later
        refine ⟨number + 1, other, piece, present, member, ?_⟩
        rwa [Nat.add_comm number, ← Nat.add_assoc]
      · cases ended

/-- A text is read exactly if each of its pieces is one, four or five numbers and every total stays
in its range after each of them; the lines that are read are the sums of the numbers. In all other
cases there is a fault, and it lies in a piece. -/
theorem decode_accepts_grammar (text : String) :
    ((∃ lines, decode text = .ok lines) ↔
        ∃ rows, Spelled (text.toList.splitOn ';') rows ∧ Counted rows ∧ InRange rows) ∧
      (∀ lines rows, decode text = .ok lines → Spelled (text.toList.splitOn ';') rows →
        Sums rows lines) ∧
      ((¬∃ rows, Spelled (text.toList.splitOn ';') rows ∧ Counted rows ∧ InRange rows) →
        ∃ fault, decode text = .error fault ∧
          ∃ number line piece, (text.toList.splitOn ';')[number]? = some line ∧
            piece ∈ pieces line ∧ fault.Blames number piece) := by
  have accepted : (∃ lines, decode text = .ok lines) ↔
      ∃ rows, Spelled (text.toList.splitOn ';') rows ∧ Counted rows ∧ InRange rows := by
    constructor
    · rintro ⟨lines, read⟩
      rw [decode_eq_ok_iff] at read
      exact ⟨_, read, counted_deltas .start lines, in_range_deltas lines⟩
    · rintro ⟨rows, spelled, counted, inRange⟩
      obtain ⟨lines, rfl⟩ := exists_lines_of_in_range counted inRange
      exact ⟨lines, decode_eq_ok_iff.2 spelled⟩
  refine ⟨accepted, ?_, ?_⟩
  · intro lines rows read spelled
    rw [decode_eq_ok_iff] at read
    rw [spelled.unique read]
    exact sums_deltas lines
  · intro refused
    cases read : decode text with
    | ok lines => exact absurd (accepted.1 ⟨lines, read⟩) refused
    | error fault =>
        obtain ⟨number, line, piece, present, member, blames⟩ := blames_of_read_lines read
        rw [zero_add] at blames
        exact ⟨fault, rfl, number, line, piece, present, member, blames⟩

/-- Three lines, the second of which is empty, and a piece that counts for nothing. -/
def mixedText : String := "A,gBCCCC;;,CDAC"

def mixedRows : List (List (List Int)) := [[[0], [16, 1, 1, 1, 1]], [], [[1, -1, 0, 1]]]

def mixedLines : Mappings :=
  [[⟨0, none⟩, ⟨16, some ⟨1, 1, 1, some 1⟩⟩], [], [⟨1, some ⟨0, 1, 2, none⟩⟩]]

def negativeText : String := "AADA"

theorem mixed_text_accepted :
    decode mixedText = .ok mixedLines ∧ Spelled (mixedText.toList.splitOn ';') mixedRows ∧
      Sums mixedRows mixedLines ∧
      (¬∃ rows, Spelled (negativeText.toList.splitOn ';') rows ∧ Counted rows ∧ InRange rows) ∧
      ∃ fault, decode negativeText = .error fault := by
  have read : decode mixedText = .ok mixedLines := by rfl
  have refused : decode negativeText = .error (.outOfRange .sourceLine (-1) 0) := by rfl
  have spelled : Spelled (mixedText.toList.splitOn ';') mixedRows := decode_eq_ok_iff.1 read
  have outside :
      ¬∃ rows, Spelled (negativeText.toList.splitOn ';') rows ∧ Counted rows ∧ InRange rows := by
    intro accepted
    obtain ⟨lines, taken⟩ := (decode_accepts_grammar negativeText).1.2 accepted
    rw [refused] at taken
    cases taken
  obtain ⟨fault, failed, -⟩ := (decode_accepts_grammar negativeText).2.2 outside
  exact ⟨read, spelled, (decode_accepts_grammar mixedText).2.1 _ _ read spelled, outside, fault,
    failed⟩

end Mappings

end MapChain
