import MapChain.Proofs.Mappings.Limits

/-!
Texts that are written the way `encode` writes. A text may pad a number with digits that add
nothing, put a sign on zero, and leave pieces of a line empty; what it says is not changed by any of
this. Main statement: the texts without such things are exactly those that are the same when they
are read and written again.
-/

set_option autoImplicit false

namespace MapChain

theorem map_eq_iff_of_related {Text Value : Type} {related : Text → Value → Prop}
    {write : Value → Text} {good : Text → Prop} {texts : List Text} {values : List Value}
    (each : ∀ text value, related text value → (write value = text ↔ good text))
    (all : List.Forall₂ related texts values) :
    values.map write = texts ↔ ∀ text ∈ texts, good text := by
  induction all with
  | nil => simp
  | cons first later induction =>
      rw [List.map_cons, List.cons.injEq, List.forall_mem_cons, each _ _ first, induction]

namespace Vlq

instance (char : Char) : Decidable (IsLast char) :=
  inferInstanceAs (Decidable (('A' ≤ char ∧ char ≤ 'Z') ∨ ('a' ≤ char ∧ char ≤ 'f')))

/-- The groups of a text: it is cut behind every digit without a mark. -/
def groups : List Char → List (List Char)
  | [] => []
  | char :: rest =>
      if IsLast char then [char] :: groups rest
      else
        match groups rest with
        | [] => [[char]]
        | group :: others => (char :: group) :: others

/-- A group without digits that add nothing, and without a sign where there is no number. -/
def Shortest (group : List Char) : Prop :=
  (2 ≤ group.length → group.getLast? ≠ some 'A') ∧ group ≠ ['B']

instance (group : List Char) : Decidable (Shortest group) :=
  inferInstanceAs (Decidable ((2 ≤ group.length → group.getLast? ≠ some 'A') ∧ group ≠ ['B']))

theorem flatten_groups (text : List Char) : (groups text).flatten = text := by
  induction text with
  | nil => rfl
  | cons char rest induction =>
      rw [groups]
      split
      next => rw [List.flatten_cons, induction, List.singleton_append]
      next =>
        split
        next none =>
          rw [none, List.flatten_nil] at induction
          rw [← induction, List.flatten_singleton]
        next group others some =>
          rw [some, List.flatten_cons] at induction
          rw [List.flatten_cons, List.cons_append, induction]

theorem groups_append {group : List Char} (closed : Closed group) (rest : List Char) :
    groups (group ++ rest) = group :: groups rest := by
  obtain ⟨marked, last, rfl, goes, ends⟩ := closed
  induction marked with
  | nil => simp [groups, ends]
  | cons char marked induction =>
      have first : ¬IsLast char := fun here => here.not_marked (goes char List.mem_cons_self)
      have later := induction fun other member => goes other (List.mem_cons_of_mem char member)
      rw [List.cons_append, List.cons_append, groups, if_neg first, later]

theorem groups_of_spells {text : List Char} {values : List Int} (spelled : Spells text values) :
    List.Forall₂ Group (groups text) values := by
  induction spelled with
  | nil => exact .nil
  | cons group later induction =>
      rw [groups_append group.closed]
      exact .cons group induction

theorem groups_encode_all (values : List Int) :
    groups (encodeAll values) = values.map encode := by
  induction values with
  | nil => rfl
  | cons value values induction =>
      rw [encodeAll, List.flatMap_cons, groups_append (closed_encode value), List.map_cons]
      exact congrArg (encode value :: ·) induction

theorem digit_char_injective {digit other : Nat} (small : digit < 64) (less : other < 64)
    (same : Base64.digitChar digit = Base64.digitChar other) : digit = other := by
  have read := Base64.digit_value_digit_char small
  rw [same, Base64.digit_value_digit_char less, Option.some.injEq] at read
  exact read.symm

theorem eq_zero_of_last {number : Nat} (padded : (encodeNat number).getLast? = some 'A') :
    number = 0 := by
  induction number using encodeNat.induct with
  | case1 number small =>
      rw [encodeNat, if_pos small, List.getLast?_singleton, Option.some.injEq] at padded
      exact digit_char_injective (by omega) (by decide) padded
  | case2 number large induction =>
      rw [encodeNat, if_neg large, List.getLast?_cons_of_ne_nil (encode_nat_ne_nil _)] at padded
      have none := induction padded
      omega

theorem encode_nat_one_iff {number : Nat} : encodeNat number = ['B'] ↔ number = 1 := by
  constructor
  · intro one
    rw [← unsigned_encode_nat number, one]
    rfl
  · intro one
    rw [one, encodeNat, if_pos (by decide)]
    rfl

theorem shortest_encode (value : Int) : Shortest (encode value) := by
  constructor
  · intro long padded
    rw [encode, eq_zero_of_last padded, encodeNat, if_pos (by decide)] at long
    exact absurd long (by decide)
  · intro signed
    have one := encode_nat_one_iff.1 signed
    unfold toUnsigned at one
    split at one <;> omega

theorem unsigned_cons (char : Char) (rest : List Char) :
    unsigned (char :: rest) = lowBits char + 32 * unsigned rest := by
  simp [unsigned, Nat.ofDigits_cons]

/-- Digits none of which is idle are the digits of what they are worth. -/
theorem encode_nat_unsigned {group : List Char} (closed : Closed group)
    (tight : 2 ≤ group.length → group.getLast? ≠ some 'A') :
    encodeNat (unsigned group) = group := by
  obtain ⟨marked, last, rfl, goes, ends⟩ := closed
  induction marked with
  | nil =>
      obtain ⟨digit, read, small⟩ := digit_value_of_is_last ends
      have worth : unsigned [last] = digit := by
        rw [unsigned_cons, low_bits_of_digit_value read, Nat.mod_eq_of_lt small]
        rfl
      rw [List.nil_append, worth, encodeNat, if_pos small,
        Base64.digit_char_of_digit_value read]
  | cons char marked induction =>
      obtain ⟨digit, read, large⟩ := digit_value_of_is_marked (goes char List.mem_cons_self)
      have bound := Base64.digit_value_lt read
      have busy : last ≠ 'A' := by
        intro idle
        apply tight
        · simp
        · rw [List.getLast?_concat, idle]
      have later : encodeNat (unsigned (marked ++ [last])) = marked ++ [last] := by
        apply induction
        · intro _ padded
          rw [List.getLast?_concat, Option.some.injEq] at padded
          exact busy padded
        · exact fun other member => goes other (List.mem_cons_of_mem char member)
      have positive : unsigned (marked ++ [last]) ≠ 0 := by
        intro none
        rw [none, encodeNat, if_pos (by decide)] at later
        have idle := congrArg List.getLast? later
        rw [List.getLast?_concat, List.getLast?_singleton, Option.some.injEq] at idle
        exact busy idle.symm
      have low : lowBits char = digit - 32 := by
        rw [low_bits_of_digit_value read]
        omega
      rw [List.cons_append, unsigned_cons, low, encodeNat, if_neg (by omega)]
      have first : (digit - 32 + 32 * unsigned (marked ++ [last])) % 32 + 32 = digit := by omega
      have rest : (digit - 32 + 32 * unsigned (marked ++ [last])) / 32 =
          unsigned (marked ++ [last]) := by omega
      rw [first, rest, later, Base64.digit_char_of_digit_value read]

theorem to_unsigned_of_unsigned {number : Nat} (unsigned : number ≠ 1) :
    toUnsigned (ofUnsigned number) = number := by
  unfold toUnsigned ofUnsigned
  split <;> split <;> omega

theorem Group.encode_eq_iff {group : List Char} {value : Int} (spelled : Group group value) :
    encode value = group ↔ Shortest group := by
  constructor
  · intro same
    rw [← same]
    exact shortest_encode value
  · intro shortest
    have digits := encode_nat_unsigned spelled.closed shortest.1
    obtain ⟨-, -, -, -, -, -, rfl⟩ := spelled
    rw [encode, to_unsigned_of_unsigned, digits]
    intro one
    apply shortest.2
    rw [← digits, encode_nat_one_iff, one]

theorem encode_all_eq_iff {text : List Char} {values : List Int} (spelled : Spells text values) :
    encodeAll values = text ↔ ∀ group ∈ groups text, Shortest group := by
  have cut : encodeAll values = text ↔ values.map encode = groups text := by
    constructor
    · intro same
      rw [← same, groups_encode_all]
    · intro same
      rw [encodeAll, List.flatMap_def, same, flatten_groups]
  rw [cut]
  exact map_eq_iff_of_related (fun _ _ group => group.encode_eq_iff) (groups_of_spells spelled)

end Vlq

namespace Mappings

def writeRow (row : List (List Int)) : List Char :=
  List.intercalate [','] (row.map Vlq.encodeAll)

/-- A line without an empty piece, unless it is empty itself, whose groups are all as short as they
can be. -/
def CanonicalLine (line : List Char) : Prop :=
  (line ≠ [] → ∀ piece ∈ line.splitOn ',', piece ≠ []) ∧
    ∀ piece ∈ line.splitOn ',', ∀ group ∈ Vlq.groups piece, Vlq.Shortest group

instance (line : List Char) : Decidable (CanonicalLine line) :=
  inferInstanceAs (Decidable (_ ∧ _))

def Canonical (text : String) : Prop := ∀ line ∈ text.toList.splitOn ';', CanonicalLine line

instance (text : String) : Decidable (Canonical text) :=
  inferInstanceAs (Decidable (∀ line ∈ text.toList.splitOn ';', CanonicalLine line))

theorem encode_segments_eq (totals : Totals) (column : UInt32) (line : Line) :
    encodeSegments totals column line = (lineDeltas totals column line).map Vlq.encodeAll := by
  induction line generalizing totals column with
  | nil => rfl
  | cons segment line induction => rw [encodeSegments, lineDeltas, List.map_cons, induction]

theorem encode_lines_eq (totals : Totals) (lines : Mappings) :
    encodeLines totals lines = (deltas totals lines).map writeRow := by
  induction lines generalizing totals with
  | nil => rfl
  | cons line lines induction =>
      rw [encodeLines, deltas, List.map_cons, induction, encode_segments_eq]
      rfl

theorem pieces_eq {line : List Char} (filled : ∀ piece ∈ line.splitOn ',', piece ≠ []) :
    pieces line = line.splitOn ',' := by
  apply List.filter_eq_self.2
  intro piece member
  exact decide_eq_true (filled piece member)

theorem canonical_line_nil : CanonicalLine [] := by decide

theorem written_of_spelled {texts : List (List Char)} {row : List (List Int)}
    (spelled : List.Forall₂ Vlq.Spells texts row) (filled : ∀ piece ∈ texts, piece ≠ []) :
    ∀ text ∈ row.map Vlq.encodeAll, text ≠ [] ∧ ',' ∉ text := by
  induction spelled with
  | nil => simp
  | cons first later induction =>
      rw [List.forall_mem_cons] at filled
      rw [List.map_cons, List.forall_mem_cons]
      have some := Vlq.encode_all_ne_nil (first.ne_nil filled.1)
      exact ⟨⟨some, Vlq.not_mem_encode_all rfl _⟩, induction filled.2⟩

theorem write_row_eq_iff {line : List Char} {row : List (List Int)}
    (spelled : List.Forall₂ Vlq.Spells (pieces line) row) :
    writeRow row = line ↔ CanonicalLine line := by
  have written := written_of_spelled spelled fun piece member =>
    of_decide_eq_true (List.mem_filter.1 member).2
  constructor
  · intro same
    cases row with
    | nil =>
        rw [← same]
        exact canonical_line_nil
    | cons fields row =>
        have split : line.splitOn ',' = (fields :: row).map Vlq.encodeAll := by
          rw [← same]
          apply List.splitOn_intercalate
          · exact fun text member => (written text member).2
          · simp
        constructor
        · intro _ piece member
          rw [split] at member
          exact (written piece member).1
        · intro piece member group inside
          rw [split] at member
          obtain ⟨values, -, rfl⟩ := List.mem_map.1 member
          rw [Vlq.groups_encode_all] at inside
          obtain ⟨value, -, rfl⟩ := List.mem_map.1 inside
          exact Vlq.shortest_encode value
  · intro canonical
    by_cases empty : line = []
    · rw [empty] at spelled ⊢
      cases spelled
      rfl
    · rw [pieces_eq (canonical.1 empty)] at spelled
      have each : row.map Vlq.encodeAll = line.splitOn ',' :=
        (map_eq_iff_of_related (fun _ _ spells => Vlq.encode_all_eq_iff spells) spelled).2
          canonical.2
      rw [writeRow, each, List.intercalate_splitOn]

theorem encode_eq_iff {text : String} {lines : Mappings} (filled : lines ≠ []) :
    encode lines = text ↔ (deltas .start lines).map writeRow = text.toList.splitOn ';' := by
  rw [← encode_lines_eq, encode]
  constructor
  · intro same
    rw [← same, String.toList_ofList, List.splitOn_intercalate]
    · exact fun line member => semicolon_not_mem_encode_lines member
    · cases lines with
      | nil => exact absurd rfl filled
      | cons line lines => simp [encodeLines]
  · intro same
    rw [same, List.intercalate_splitOn, String.ofList_toList]

/-- Reading and writing again leaves a text as it is just where it is written without empty pieces,
idle digits and signed zeros, and it never changes what the text says. -/
theorem rewritten_alike_iff {text : String} {lines : Mappings} (read : decode text = .ok lines) :
    (encode lines = text ↔ Canonical text) ∧ decode (encode lines) = .ok lines := by
  have filled := decoded_ne_nil read
  constructor
  · rw [encode_eq_iff filled]
    exact map_eq_iff_of_related (fun _ _ spelled => write_row_eq_iff spelled)
      (decode_eq_ok_iff.1 read)
  · exact decode_encode_of_ne_nil filled

/-- A padded number, a zero with a sign, and a line of nothing but commas. -/
def looseText : String := "giAAAA,B;,;"

def looseLines : Mappings := [[⟨32, some ⟨0, 0, 0, none⟩⟩, ⟨32, none⟩], [], []]

theorem loose_rewritten :
    decode looseText = .ok looseLines ∧ ¬Canonical looseText ∧ encode looseLines ≠ looseText ∧
      decode "gCAAA,A;;" = .ok looseLines ∧ Canonical "gCAAA,A;;" ∧
      encode looseLines = "gCAAA,A;;" ∧ decode (encode looseLines) = .ok looseLines := by
  have read : decode looseText = .ok looseLines := by rfl
  have tight : decode "gCAAA,A;;" = .ok looseLines := by rfl
  have loose : ¬Canonical looseText := by decide
  have canonical : Canonical "gCAAA,A;;" := by decide
  have kept := rewritten_alike_iff tight
  exact ⟨read, loose, fun same => loose ((rewritten_alike_iff read).1.1 same), tight, canonical,
    kept.1.2 canonical, kept.2⟩

end Mappings

end MapChain
