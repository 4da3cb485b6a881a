import MapChain.Proofs.Mappings.Reading

/-!
Reading a written mapping. A written number has at most twelve digits as long as it is below
`32 ^ 12`, and no digit is a comma or a semicolon, so a text falls apart into the very pieces that
it was put together from. Main statements: lines that are written are read back, whatever the order
of their columns, and different lines are written differently.
-/

set_option autoImplicit false

namespace MapChain

namespace Vlq

theorem digits_of_encode_nat {number : Nat} {char : Char} (member : char ∈ encodeNat number) :
    ∃ digit < 64, char = Base64.digitChar digit := by
  induction number using encodeNat.induct with
  | case1 number small =>
      rw [encodeNat, if_pos small, List.mem_singleton] at member
      exact ⟨number, by omega, member⟩
  | case2 number large induction =>
      rw [encodeNat, if_neg large] at member
      rcases List.mem_cons.1 member with first | later
      · exact ⟨number % 32 + 32, by omega, first⟩
      · exact induction later

theorem not_mem_encode_all {char : Char} (foreign : Base64.digitValue? char = none)
    (values : List Int) : char ∉ encodeAll values := by
  intro member
  obtain ⟨value, -, inside⟩ := List.mem_flatMap.1 member
  obtain ⟨digit, small, rfl⟩ := digits_of_encode_nat inside
  rw [Base64.digit_value_digit_char small] at foreign
  cases foreign

theorem encode_all_ne_nil {values : List Int} (filled : values ≠ []) : encodeAll values ≠ [] := by
  cases values with
  | nil => exact absurd rfl filled
  | cons value values =>
      intro empty
      exact encode_ne_nil value (List.append_eq_nil_iff.1 empty).1

theorem is_last_digit_char {digit : Nat} (small : digit < 32) :
    IsLast (Base64.digitChar digit) := by
  have read := Base64.digit_value_digit_char (by omega : digit < 64)
  rcases kind_of_digit_value read with ⟨-, ends⟩ | ⟨large, -⟩
  · exact ends
  · omega

theorem is_marked_digit_char {digit : Nat} (large : 32 ≤ digit) (inside : digit < 64) :
    IsMarked (Base64.digitChar digit) := by
  rcases kind_of_digit_value (Base64.digit_value_digit_char inside) with ⟨small, -⟩ | ⟨-, goes⟩
  · omega
  · exact goes

/-- A written number with `spare` digits to spare before the last one. -/
theorem digits_encode_nat {value spare : Nat} (small : value < 32 ^ (spare + 1)) :
    ∃ marked last, encodeNat value = marked ++ [last] ∧ marked.length ≤ spare ∧
      (∀ char ∈ marked, IsMarked char) ∧ IsLast last := by
  induction spare generalizing value with
  | zero =>
      have last : value < 32 := by simpa using small
      rw [encodeNat, if_pos last]
      exact ⟨[], _, rfl, le_rfl, by simp, is_last_digit_char last⟩
  | succ spare induction =>
      by_cases last : value < 32
      · rw [encodeNat, if_pos last]
        exact ⟨[], _, rfl, Nat.zero_le _, by simp, is_last_digit_char last⟩
      · have less : value / 32 < 32 ^ (spare + 1) := by
          rw [Nat.div_lt_iff_lt_mul (by omega), ← pow_succ]
          exact small
        have first : IsMarked (Base64.digitChar (value % 32 + 32)) :=
          is_marked_digit_char (by omega) (by omega)
        obtain ⟨marked, final, same, short, goes, ends⟩ := induction less
        rw [encodeNat, if_neg last, same]
        refine ⟨_ :: marked, final, rfl, ?_, ?_, ends⟩
        · rw [List.length_cons]
          omega
        · intro char member
          rcases List.mem_cons.1 member with rfl | later
          · exact first
          · exact goes char later

theorem unsigned_encode_nat (value : Nat) : unsigned (encodeNat value) = value := by
  induction value using encodeNat.induct with
  | case1 value small =>
      have low := low_bits_of_digit_value (Base64.digit_value_digit_char (by omega : value < 64))
      rw [encodeNat, if_pos small]
      simp [unsigned, low, Nat.mod_eq_of_lt small]
  | case2 value large induction =>
      have inside : value % 32 + 32 < 64 := by omega
      have low := low_bits_of_digit_value (Base64.digit_value_digit_char inside)
      rw [encodeNat, if_neg large]
      unfold unsigned at induction ⊢
      rw [List.map_cons, Nat.ofDigits_cons, induction, low]
      omega

theorem group_encode {value : Int} (small : toUnsigned value < 32 ^ maxDigits) :
    Group (encode value) value := by
  have twelve : toUnsigned value < 32 ^ (11 + 1) := small
  obtain ⟨marked, last, same, short, goes, ends⟩ := digits_encode_nat twelve
  refine ⟨marked, last, same, short, goes, ends, ?_⟩
  rw [encode, unsigned_encode_nat, of_unsigned_to_unsigned]

theorem spells_encode_all {values : List Int}
    (small : ∀ value ∈ values, toUnsigned value < 32 ^ maxDigits) :
    Spells (encodeAll values) values := by
  induction values with
  | nil => exact .nil
  | cons value values induction =>
      have first : toUnsigned value < 32 ^ maxDigits := small value List.mem_cons_self
      exact .cons (group_encode first)
        (induction fun other member => small other (List.mem_cons_of_mem value member))

theorem decode_encode_all {values : List Int}
    (small : ∀ value ∈ values, toUnsigned value < 32 ^ maxDigits) :
    decode (encodeAll values) = .ok values :=
  decode_eq_ok_iff.2 (spells_encode_all small)

end Vlq

namespace Mappings

theorem segment_deltas_ne_nil (totals : Totals) (column : UInt32) (segment : Segment) :
    segmentDeltas totals column segment ≠ [] := by
  unfold segmentDeltas
  split
  · simp
  · split <;> simp

theorem word_delta_near (left right : UInt32) :
    ((left.toNat : Int) - right.toNat).natAbs < 2 ^ 32 := by
  have leftBound := left.toNat_lt
  have rightBound := right.toNat_lt
  omega

theorem segment_deltas_near (totals : Totals) (column : UInt32) (segment : Segment) :
    ∀ delta ∈ segmentDeltas totals column segment, delta.natAbs < 2 ^ 32 := by
  intro delta member
  unfold segmentDeltas at member
  split at member
  · rw [List.mem_singleton] at member
    rw [member]
    exact word_delta_near _ _
  · split at member
    · simp only [List.mem_cons, List.not_mem_nil, or_false] at member
      rcases member with rfl | rfl | rfl | rfl <;> exact word_delta_near _ _
    · simp only [List.cons_append, List.nil_append, List.mem_cons, List.not_mem_nil,
        or_false] at member
      rcases member with rfl | rfl | rfl | rfl | rfl <;> exact word_delta_near _ _

theorem line_deltas_near (totals : Totals) (column : UInt32) (line : Line) :
    ∀ fields ∈ lineDeltas totals column line, ∀ delta ∈ fields, delta.natAbs < 2 ^ 32 := by
  induction line generalizing totals column with
  | nil => simp [lineDeltas]
  | cons segment line induction =>
      rw [lineDeltas, List.forall_mem_cons]
      exact ⟨segment_deltas_near totals column segment, induction _ _⟩

theorem deltas_near (totals : Totals) (lines : Mappings) :
    ∀ row ∈ deltas totals lines, ∀ fields ∈ row, ∀ delta ∈ fields, delta.natAbs < 2 ^ 32 := by
  induction lines generalizing totals with
  | nil => simp [deltas]
  | cons line lines induction =>
      rw [deltas, List.forall_mem_cons]
      exact ⟨line_deltas_near totals 0 line, induction _⟩

theorem segment_deltas_small (totals : Totals) (column : UInt32) (segment : Segment) :
    ∀ delta ∈ segmentDeltas totals column segment,
      Vlq.toUnsigned delta < 32 ^ Vlq.maxDigits := by
  intro delta member
  have near := segment_deltas_near totals column segment delta member
  have limit : (2 : Nat) ^ 34 < 32 ^ Vlq.maxDigits := by decide
  unfold Vlq.toUnsigned
  split <;> omega

theorem spells_encode_segments (totals : Totals) (column : UInt32) (segments : Line) :
    List.Forall₂ Vlq.Spells (encodeSegments totals column segments)
      (lineDeltas totals column segments) := by
  induction segments generalizing totals column with
  | nil => exact .nil
  | cons segment segments induction =>
      have small := segment_deltas_small totals column segment
      exact .cons (Vlq.spells_encode_all small)
        (induction (totals.after segment) segment.generatedColumn)

theorem piece_of_encode_segments {totals : Totals} {column : UInt32} {segments : Line}
    {piece : List Char} (member : piece ∈ encodeSegments totals column segments) :
    piece ≠ [] ∧ ',' ∉ piece ∧ ';' ∉ piece := by
  induction segments generalizing totals column with
  | nil => cases member
  | cons segment segments induction =>
      rcases List.mem_cons.1 member with first | later
      · rw [first]
        exact ⟨Vlq.encode_all_ne_nil (segment_deltas_ne_nil _ _ _),
          Vlq.not_mem_encode_all rfl _, Vlq.not_mem_encode_all rfl _⟩
      · exact induction later

theorem pieces_encode_segments (totals : Totals) (column : UInt32) (segments : Line) :
    pieces (List.intercalate [','] (encodeSegments totals column segments)) =
      encodeSegments totals column segments := by
  cases segments with
  | nil => rfl
  | cons segment segments =>
      have parts : ∀ piece ∈ encodeSegments totals column (segment :: segments), ',' ∉ piece :=
        fun piece member => (piece_of_encode_segments member).2.1
      rw [pieces, List.splitOn_intercalate _ parts (by simp [encodeSegments])]
      refine List.filter_eq_self.2 ?_
      intro piece member
      simpa using (piece_of_encode_segments member).1

theorem mem_of_mem_intercalate {separator char : Char} {parts : List (List Char)}
    (member : char ∈ List.intercalate [separator] parts) :
    char = separator ∨ ∃ part ∈ parts, char ∈ part := by
  induction parts with
  | nil => cases member
  | cons first parts induction =>
      cases parts with
      | nil =>
          rw [List.intercalate_singleton] at member
          exact Or.inr ⟨first, by simp, member⟩
      | cons second parts =>
          rw [List.intercalate_cons_cons, List.mem_append, List.mem_append] at member
          rcases member with (inside | between) | later
          · exact Or.inr ⟨first, by simp, inside⟩
          · exact Or.inl (List.mem_singleton.1 between)
          · rcases induction later with same | ⟨part, there, has⟩
            · exact Or.inl same
            · exact Or.inr ⟨part, List.mem_cons_of_mem _ there, has⟩

theorem semicolon_not_mem_encode_lines {totals : Totals} {lines : Mappings} {text : List Char}
    (member : text ∈ encodeLines totals lines) : ';' ∉ text := by
  induction lines generalizing totals with
  | nil => cases member
  | cons line lines induction =>
      rcases List.mem_cons.1 member with first | later
      · rw [first]
        intro inside
        rcases mem_of_mem_intercalate inside with same | ⟨piece, there, has⟩
        · exact absurd same (by decide)
        · exact (piece_of_encode_segments there).2.2 has
      · exact induction later

theorem spelled_encode_lines (totals : Totals) (lines : Mappings) :
    Spelled (encodeLines totals lines) (deltas totals lines) := by
  unfold Spelled
  induction lines generalizing totals with
  | nil => exact .nil
  | cons segments lines induction =>
      have first := spells_encode_segments totals 0 segments
      rw [← pieces_encode_segments] at first
      exact .cons first (induction (segments.foldl Totals.after totals))

/-- Only the mapping without any line is not read back: its text has one line, which is empty. -/
theorem decode_encode_of_ne_nil {lines : Mappings} (filled : lines ≠ []) :
    decode (encode lines) = .ok lines := by
  have parts : ∀ text ∈ encodeLines .start lines, ';' ∉ text :=
    fun text member => semicolon_not_mem_encode_lines member
  have written : encodeLines .start lines ≠ [] := by
    cases lines with
    | nil => exact absurd rfl filled
    | cons line lines => simp [encodeLines]
  rw [decode_eq_ok_iff, encode, String.toList_ofList,
    List.splitOn_intercalate _ parts written]
  exact spelled_encode_lines .start lines

theorem decode_encode_nil : decode (encode []) = .ok [[]] := by
  rw [decode_eq_ok_iff, encode, String.toList_ofList]
  exact .cons .nil .nil

/-- Reading undoes writing, whatever the order of the columns and whatever segments or lines are
missing, so two mappings with lines are written alike only if they are alike. Without any line the
text still has one. -/
theorem encode_reads_back :
    (∀ lines : Mappings, lines ≠ [] → decode (encode lines) = .ok lines) ∧
      decode (encode []) = .ok [[]] ∧
      ∀ lines other : Mappings, lines ≠ [] → other ≠ [] →
        (encode lines = encode other ↔ lines = other) := by
  refine ⟨fun lines filled => decode_encode_of_ne_nil filled, decode_encode_nil, ?_⟩
  intro lines other filled otherFilled
  constructor
  · intro same
    have read : decode (encode lines) = .ok lines := decode_encode_of_ne_nil filled
    rw [same, decode_encode_of_ne_nil otherFilled] at read
    cases read
    rfl
  · intro same
    rw [same]

/-- Columns that go back, numbers at the ends of their range, a segment without an origin, and a
line without segments. -/
def crooked : Mappings :=
  [[⟨7, some ⟨4294967295, 3, 0, some 4294967295⟩⟩, ⟨2, none⟩,
      ⟨2, some ⟨0, 4294967295, 9, none⟩⟩],
    [], [⟨4294967295, none⟩, ⟨0, some ⟨1, 0, 4294967295, some 0⟩⟩]]

theorem crooked_reads_back :
    crooked ≠ [] ∧ decode (encode crooked) = .ok crooked ∧ [[], []] ≠ crooked ∧
      encode [[], []] ≠ encode crooked := by
  have filled : crooked ≠ [] := by decide
  have apart : [[], []] ≠ crooked := by decide
  refine ⟨filled, encode_reads_back.1 crooked filled, apart, ?_⟩
  intro same
  exact apart ((encode_reads_back.2.2 _ crooked (by decide) filled).1 same)

end Mappings

end MapChain
