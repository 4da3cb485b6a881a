import MapChain.Proofs.Mappings.Canonical
import MapChain.Proofs.Words.Reading

/-!
Writing mappings on words of sixty-four bits. The differences, the number without its sign, and
what is left of it after each digit are words. Main statement: no operation of reading or writing
on words leaves their range, shifts by the length of a word or more, or goes on without end, and so
both do what reading and writing do.
-/

set_option autoImplicit false

namespace MapChain.Words

def digitOf (word : Int64) : Run Empty Char :=
  if 0 ≤ word.toInt ∧ word.toInt < 64 then .ok (Base64.digitChar word.toInt.toNat)
  else .error .broken

def writeFrom : (rounds : Nat) → Int64 → Run Empty (List Char)
  | 0, _ => .error .broken
  | rounds + 1, value => do
      let rest ← shiftDown value 5
      let char ← digitOf (if 0 < rest then value &&& 31 ||| 32 else value &&& 31)
      if rest = 0 then return [char]
      else do
        let chars ← writeFrom rounds rest
        return char :: chars

def writeNumber (rounds : Nat) (value : Int64) : Run Empty (List Char) :=
  if value < 0 then do
    let opposite ← negate value
    let doubled ← shiftUp opposite 1
    writeFrom rounds (doubled ||| 1)
  else do
    let doubled ← shiftUp value 1
    writeFrom rounds doubled

def widen (word : UInt32) : Int64 := Int64.ofNat word.toNat

def Totals.after (totals : Totals) (segment : Segment) : Totals :=
  match segment.origin with
  | none => { totals with generated := widen segment.generatedColumn }
  | some origin =>
      ⟨widen segment.generatedColumn, widen origin.source, widen origin.line,
        widen origin.column, (origin.name.map widen).getD totals.name⟩

def segmentDeltas (totals : Totals) (segment : Segment) : Run Empty (List Int64) := do
  let moved ← subtract (widen segment.generatedColumn) totals.generated
  match segment.origin with
  | none => return [moved]
  | some origin => do
      let source ← subtract (widen origin.source) totals.source
      let line ← subtract (widen origin.line) totals.line
      let column ← subtract (widen origin.column) totals.column
      match origin.name with
      | none => return [moved, source, line, column]
      | some name => do
          let named ← subtract (widen name) totals.name
          return [moved, source, line, column, named]

def lineDeltas (totals : Totals) : Line → Run Empty (List (List Int64))
  | [] => .ok []
  | segment :: segments => do
      let first ← segmentDeltas totals segment
      let later ← lineDeltas (totals.after segment) segments
      return first :: later

def deltas (totals : Totals) : Mappings → Run Empty (List (List (List Int64)))
  | [] => .ok []
  | line :: lines => do
      let first ← lineDeltas { totals with generated := 0 } line
      let later ← deltas (line.foldl Totals.after totals) lines
      return first :: later

def writeSegment (rounds : Nat) (fields : List Int64) : Run Empty (List Char) := do
  let texts ← fields.mapM (writeNumber rounds)
  return texts.flatten

def writeLine (rounds : Nat) (row : List (List Int64)) : Run Empty (List Char) := do
  let texts ← row.mapM (writeSegment rounds)
  return List.intercalate [','] texts

def writeText (rounds : Nat) (rows : List (List (List Int64))) : Run Empty String := do
  let texts ← rows.mapM (writeLine rounds)
  return String.ofList (List.intercalate [';'] texts)

theorem map_m_eq {Item Text : Type} {write : Item → Run Empty Text} {plain : Item → Text}
    {items : List Item} (each : ∀ item ∈ items, write item = .ok (plain item)) :
    items.mapM write = .ok (items.map plain) := by
  induction items with
  | nil => rfl
  | cons item items induction =>
      rw [List.forall_mem_cons] at each
      rw [List.mapM_cons, bind_of_ok each.1, bind_of_ok (induction each.2)]
      rfl

theorem digit_of_eq {word : Int64} {digit : Nat} (same : word.toInt = digit)
    (small : digit < 64) : digitOf word = .ok (Base64.digitChar digit) := by
  rw [digitOf, if_pos (by omega), same, Int.toNat_natCast]

/-- One round writes the digit of the lowest five bits, with a mark where others are left. -/
theorem write_from_succ {number : Nat} {value : Int64} (same : value.toInt = number)
    (small : number < 2 ^ 63) :
    ∃ rest : Int64, rest.toInt = (number / 32 : Nat) ∧ ∀ rounds, writeFrom (rounds + 1) value =
      if number < 32 then .ok [Base64.digitChar number]
      else writeFrom rounds rest >>= fun chars =>
        pure (Base64.digitChar (number % 32 + 32) :: chars) := by
  have worth : value.toInt / 2 ^ 5 = (number / 32 : Nat) := by
    rw [same]
    rfl
  have fits : Fits (value.toInt / 2 ^ 5) := by
    rw [worth]
    exact fits_nat (by omega)
  obtain ⟨rest, shifted, remains⟩ := shift_down_eq Empty (by decide : 5 < 64) fits
  rw [worth] at remains
  have zero : (0 : Int64).toInt = (0 : Nat) := by rfl
  have low := low_bits_eq same
  refine ⟨rest, remains, fun rounds => ?_⟩
  rw [writeFrom, bind_of_ok shifted]
  by_cases last : number < 32
  · have done : rest = 0 := (eq_iff_to_int remains zero).2 (by omega)
    have char := digit_of_eq low (by omega)
    rw [if_pos last, if_neg (by rw [done]; decide), bind_of_ok char, if_pos done,
      Nat.mod_eq_of_lt last]
    rfl
  · have more : ¬rest = 0 := fun done => last (by
      have none := (eq_iff_to_int remains zero).1 done
      omega)
    have positive : 0 < rest := by
      rw [Int64.lt_iff_toInt_lt, remains, zero]
      omega
    have char := digit_of_eq (marked_eq low (by omega)) (by omega)
    rw [if_neg last, if_pos positive, bind_of_ok char, if_neg more]

/-- The loop ends where so many rounds have room for the digits of the number. -/
theorem write_from_eq {rounds number : Nat} {value : Int64} (same : value.toInt = number)
    (small : number < 2 ^ 63) (enough : number < 32 ^ (rounds + 1)) :
    writeFrom (rounds + 1) value = .ok (Vlq.encodeNat number) := by
  induction rounds generalizing number value with
  | zero =>
      have last : number < 32 := by simpa using enough
      obtain ⟨rest, -, written⟩ := write_from_succ same small
      rw [written, if_pos last, Vlq.encodeNat, if_pos last]
  | succ rounds induction =>
      obtain ⟨rest, remains, written⟩ := write_from_succ same small
      rw [written, Vlq.encodeNat]
      by_cases last : number < 32
      · rw [if_pos last, if_pos last]
      · have power : 32 ^ (rounds + 1 + 1) = 32 ^ (rounds + 1) * 32 := pow_succ 32 (rounds + 1)
        have later := induction remains (by omega) (by omega)
        rw [if_neg last, if_neg last, bind_of_ok later]
        rfl

theorem double_eq {value : Int64} {magnitude : Nat} (same : value.toInt = magnitude)
    (small : 2 * magnitude < 2 ^ 63) :
    ∃ doubled, (shiftUp value 1 : Run Empty Int64) = .ok doubled ∧
      doubled.toInt = (2 * magnitude : Nat) := by
  have worth : value.toInt * 2 ^ 1 = (2 * magnitude : Nat) := by
    rw [same]
    omega
  have fits : Fits (value.toInt * 2 ^ 1) := by
    rw [worth]
    exact fits_nat small
  obtain ⟨doubled, shifted, twice⟩ := shift_up_eq Empty (by decide : 1 < 64) fits
  exact ⟨doubled, shifted, twice.trans worth⟩

/-- A number is written if its double and its sign fit a word, in as many rounds as it has
digits. -/
theorem write_number_eq {rounds : Nat} {value : Int64}
    (word : Vlq.toUnsigned value.toInt < 2 ^ 63)
    (enough : Vlq.toUnsigned value.toInt < 32 ^ (rounds + 1)) :
    writeNumber (rounds + 1) value = .ok (Vlq.encode value.toInt) := by
  have zero : (0 : Int64).toInt = 0 := by rfl
  have sign : value < 0 ↔ value.toInt < 0 := by rw [Int64.lt_iff_toInt_lt, zero]
  unfold writeNumber Vlq.encode
  unfold Vlq.toUnsigned at word enough ⊢
  by_cases negative : value.toInt < 0
  · rw [if_pos negative] at word enough
    rw [if_pos (sign.2 negative), if_pos negative]
    have fits : Fits (-value.toInt) := by constructor <;> omega
    obtain ⟨opposite, negated, same⟩ := negate_eq Empty fits
    have magnitude : opposite.toInt = value.toInt.natAbs := by omega
    obtain ⟨doubled, shifted, twice⟩ := double_eq magnitude (by omega)
    rw [bind_of_ok negated, bind_of_ok shifted]
    exact write_from_eq (odd_eq twice) word enough
  · rw [if_neg negative] at word enough
    rw [if_neg (mt sign.1 negative), if_neg negative]
    have magnitude : value.toInt = value.toInt.natAbs := by omega
    obtain ⟨doubled, shifted, twice⟩ := double_eq magnitude (by omega)
    rw [bind_of_ok shifted]
    exact write_from_eq twice word enough

example : writeNumber 13 (Int64.ofInt (2 ^ 62)) = .error .broken := by rfl

theorem write_delta_eq {value : Int64} (near : value.toInt.natAbs < 2 ^ 32) (more : Nat) :
    writeNumber (7 + more) value = .ok (Vlq.encode value.toInt) := by
  have limit : 32 ^ 7 ≤ 32 ^ (6 + more + 1) := Nat.pow_le_pow_right (by decide) (by omega)
  have size : Vlq.toUnsigned value.toInt < 2 ^ 34 := by
    unfold Vlq.toUnsigned
    split <;> omega
  rw [Nat.add_comm 7 more]
  exact write_number_eq (by omega) (by rw [Nat.add_comm more 6]; omega)

theorem carries_widen (word : UInt32) : Carries (widen word) word :=
  Int64.toInt_ofNat_of_lt (word.toNat_lt.trans (by decide))

theorem difference_eq {word : Int64} {total : UInt32} (value : UInt32)
    (carries : Carries word total) :
    ∃ delta, subtract (widen value) word = (.ok delta : Run Empty Int64) ∧
      delta.toInt = value.toNat - total.toNat := by
  have bound := Mappings.word_delta_near value total
  have worth : (widen value).toInt - word.toInt = value.toNat - total.toNat := by
    rw [carries_widen value, carries]
  have fits : Fits ((widen value).toInt - word.toInt) := by
    rw [worth]
    constructor <;> omega
  obtain ⟨delta, subtracted, same⟩ := subtract_eq Empty fits
  exact ⟨delta, subtracted, same.trans worth⟩

variable {words : Totals} {totals : Mappings.Totals} {column : UInt32}

theorem Totals.Matches.after (same : words.Matches totals column) (segment : Segment) :
    (words.after segment).Matches (totals.after segment) segment.generatedColumn := by
  obtain ⟨generated, origin⟩ := segment
  cases origin with
  | none => exact ⟨carries_widen _, same.source, same.line, same.column, same.name⟩
  | some origin =>
      obtain ⟨source, line, place, name⟩ := origin
      cases name with
      | none =>
          exact ⟨carries_widen _, carries_widen _, carries_widen _, carries_widen _, same.name⟩
      | some name =>
          exact ⟨carries_widen _, carries_widen _, carries_widen _, carries_widen _,
            carries_widen _⟩

theorem Totals.Matches.after_line (same : words.Matches totals column) (line : Line) :
    ∃ last, (line.foldl Totals.after words).Matches (line.foldl Mappings.Totals.after totals)
      last := by
  induction line generalizing words totals column with
  | nil => exact ⟨column, same⟩
  | cons segment line induction => exact induction (same.after segment)

theorem segment_deltas_eq (same : words.Matches totals column) (segment : Segment) :
    ∃ fields, segmentDeltas words segment = .ok fields ∧
      fields.map Int64.toInt = Mappings.segmentDeltas totals column segment := by
  obtain ⟨generated, origin⟩ := segment
  obtain ⟨moved, first, movedSame⟩ := difference_eq generated same.generated
  cases origin with
  | none =>
      refine ⟨[moved], bind_of_ok first, ?_⟩
      rw [Mappings.segmentDeltas, List.map_singleton, movedSame]
  | some origin =>
      obtain ⟨source, line, place, name⟩ := origin
      obtain ⟨sourceDelta, second, sourceSame⟩ := difference_eq source same.source
      obtain ⟨lineDelta, third, lineSame⟩ := difference_eq line same.line
      obtain ⟨placeDelta, fourth, placeSame⟩ := difference_eq place same.column
      unfold segmentDeltas Mappings.segmentDeltas
      rw [bind_of_ok first]
      simp only [bind_of_ok second, bind_of_ok third, bind_of_ok fourth]
      cases name with
      | none =>
          refine ⟨_, rfl, ?_⟩
          simp only [List.map_cons, List.map_nil, movedSame, sourceSame, lineSame, placeSame]
      | some name =>
          obtain ⟨nameDelta, fifth, nameSame⟩ := difference_eq name same.name
          refine ⟨_, bind_of_ok fifth, ?_⟩
          simp only [List.map_cons, List.map_nil, movedSame, sourceSame, lineSame, placeSame,
            nameSame, List.cons_append, List.nil_append]

theorem line_deltas_eq (same : words.Matches totals column) (line : Line) :
    ∃ row, lineDeltas words line = .ok row ∧
      row.map (List.map Int64.toInt) = Mappings.lineDeltas totals column line := by
  induction line generalizing words totals column with
  | nil => exact ⟨[], rfl, rfl⟩
  | cons segment line induction =>
      obtain ⟨fields, first, equal⟩ := segment_deltas_eq same segment
      obtain ⟨row, later, alike⟩ := induction (same.after segment)
      refine ⟨fields :: row, ?_, ?_⟩
      · rw [lineDeltas, bind_of_ok first, bind_of_ok later]
        rfl
      · rw [List.map_cons, equal, alike, Mappings.lineDeltas]

theorem deltas_eq (same : words.Matches totals column) (lines : Mappings) :
    ∃ rows, deltas words lines = .ok rows ∧
      rows.map (List.map (List.map Int64.toInt)) = Mappings.deltas totals lines := by
  induction lines generalizing words totals column with
  | nil => exact ⟨[], rfl, rfl⟩
  | cons line lines induction =>
      have started : Totals.Matches { words with generated := 0 } totals 0 :=
        ⟨rfl, same.source, same.line, same.column, same.name⟩
      obtain ⟨row, first, equal⟩ := line_deltas_eq started line
      obtain ⟨last, ended⟩ := same.after_line line
      obtain ⟨rows, later, alike⟩ := induction ended
      refine ⟨row :: rows, ?_, ?_⟩
      · rw [deltas, bind_of_ok first, bind_of_ok later]
        rfl
      · rw [List.map_cons, equal, alike, Mappings.deltas]

theorem write_segment_eq {fields : List Int64}
    (near : ∀ delta ∈ fields, delta.toInt.natAbs < 2 ^ 32) (more : Nat) :
    writeSegment (7 + more) fields = .ok (Vlq.encodeAll (fields.map Int64.toInt)) := by
  have texts := map_m_eq fun delta member => write_delta_eq (near delta member) more
  rw [writeSegment, bind_of_ok texts, Vlq.encodeAll, List.flatMap_map, List.flatMap_def]
  rfl

theorem write_line_eq {row : List (List Int64)}
    (near : ∀ fields ∈ row, ∀ delta ∈ fields, delta.toInt.natAbs < 2 ^ 32) (more : Nat) :
    writeLine (7 + more) row = .ok (Mappings.writeRow (row.map (List.map Int64.toInt))) := by
  have texts := map_m_eq fun fields member => write_segment_eq (near fields member) more
  rw [writeLine, bind_of_ok texts, Mappings.writeRow, List.map_map]
  rfl

theorem write_text_eq {rows : List (List (List Int64))}
    (near : ∀ row ∈ rows, ∀ fields ∈ row, ∀ delta ∈ fields, delta.toInt.natAbs < 2 ^ 32)
    (more : Nat) :
    writeText (7 + more) rows = .ok (String.ofList (List.intercalate [';']
      ((rows.map (List.map (List.map Int64.toInt))).map Mappings.writeRow))) := by
  have texts := map_m_eq fun row member => write_line_eq (near row member) more
  rw [writeText, bind_of_ok texts, List.map_map]
  rfl

/-- Reading and writing go through on words of sixty-four bits, where every result has to lie
strictly within their range and every shift has to be shorter than they are: numbers and mappings
are read as they are exactly, with the same faults; the differences that a mapping is written as
are below `2 ^ 32`, and seven rounds write the digits of each of them, however many are allowed. -/
theorem words_suffice :
    (∀ text : List Char,
        (readNumbers text).map (List.map Int64.toInt) = (Vlq.decode text).mapError .fault) ∧
      (∀ text : String, read text = (Mappings.decode text).mapError .fault) ∧
      ∀ lines : Mappings, ∃ rows, deltas .start lines = .ok rows ∧
        (∀ row ∈ rows, ∀ fields ∈ row, ∀ delta ∈ fields, delta.toInt.natAbs < 2 ^ 32) ∧
        ∀ more : Nat, writeText (7 + more) rows = .ok (Mappings.encode lines) := by
  refine ⟨read_numbers_eq, read_eq, fun lines => ?_⟩
  obtain ⟨rows, done, same⟩ := deltas_eq matches_start lines
  have near : ∀ row ∈ rows, ∀ fields ∈ row, ∀ delta ∈ fields,
      delta.toInt.natAbs < 2 ^ 32 := by
    intro row inside fields member delta part
    have all := Mappings.deltas_near .start lines
    rw [← same] at all
    exact all _ (List.mem_map_of_mem inside) _ (List.mem_map_of_mem member) _
      (List.mem_map_of_mem part)
  refine ⟨rows, done, near, fun more => ?_⟩
  rw [write_text_eq near, same, ← Mappings.encode_lines_eq]
  rfl

/-- A number of twelve digits, a total that is refused with one, and differences from one end of the
range of thirty-two bits to the other. -/
theorem extremes_on_words :
    (readNumbers "///////////f".toList).map (List.map Int64.toInt) = .ok [1 - 2 ^ 59] ∧
      read "A,///////////f" = .error (.fault (.outOfRange .generatedColumn (1 - 2 ^ 59) 0)) ∧
      ∃ rows, deltas .start Mappings.crooked = .ok rows ∧
        writeText 7 rows = .ok (Mappings.encode Mappings.crooked) := by
  obtain ⟨numbers, texts, writes⟩ := words_suffice
  have digits : Vlq.decode "///////////f".toList = .ok [1 - 2 ^ 59] := by rfl
  have refused : Mappings.decode "A,///////////f" =
      .error (.outOfRange .generatedColumn (1 - 2 ^ 59) 0) := by rfl
  obtain ⟨rows, done, -, written⟩ := writes Mappings.crooked
  refine ⟨?_, ?_, rows, done, written 0⟩
  · rw [numbers, digits]
    rfl
  · rw [texts, refused]
    rfl

end MapChain.Words
