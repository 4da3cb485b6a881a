import MapChain.Mappings.Text
import MapChain.Proofs.Mappings.Limits
import MapChain.Proofs.Words.Arithmetic

/-!
Reading mappings on words of sixty-four bits. The value of a number that is being read, the bits of
a digit at their place, the number and its opposite, and every total with a difference added are
words. Main statement: reading on words does what reading does.
-/

set_option autoImplicit false

namespace MapChain.Words

def signed {Fault : Type} (value : Int64) : Run Fault Int64 := do
  let half ← shiftDown value 1
  if value &&& 1 = 1 then negate half else return half

/-- Reads on from `offset`, with the bits of the next digit going to the place `shift`. -/
def readFrom (offset shift : Nat) (value : Int64) : List Char → Run Vlq.Fault (List Int64)
  | [] => if shift = 0 then .ok [] else .error (.fault .unterminated)
  | char :: rest =>
      match Base64.digitValue? char with
      | none => .error (.fault (.foreignByte (Char.ofNat (Utf8.leadByte char).toNat) offset))
      | some digit =>
          if 55 < shift then .error (.fault .overlong)
          else do
            let bits ← shiftUp (Int64.ofNat digit &&& 31) shift
            let grown ← add value bits
            if Int64.ofNat digit &&& 32 = 0 then do
              let number ← signed grown
              let numbers ← readFrom (offset + 1) 0 0 rest
              return number :: numbers
            else readFrom (offset + 1) (shift + 5) grown rest

def readNumbers (text : List Char) : Run Vlq.Fault (List Int64) := readFrom 0 0 0 text

/-- The totals of a text: that of the generated column, which starts anew on every line, and those
that run through the whole text. -/
structure Totals where
  generated : Int64
  source : Int64
  line : Int64
  column : Int64
  name : Int64

def Totals.start : Totals := ⟨0, 0, 0, 0, 0⟩

def narrow (word : Int64) : UInt32 := UInt32.ofNat word.toInt.toNat

def advance (field : Mappings.Field) (line : Nat) (total delta : Int64) :
    Run Mappings.Fault Int64 := do
  let moved ← add total delta
  if 0 ≤ moved.toInt ∧ moved.toInt < UInt32.size then return moved
  else .error (.fault (.outOfRange field moved.toInt line))

def readPlace (line : Nat) (totals : Totals) (source sourceLine sourceColumn : Int64) :
    Run Mappings.Fault Totals := do
  let source ← advance .sourceIndex line totals.source source
  let sourceLine ← advance .sourceLine line totals.line sourceLine
  let sourceColumn ← advance .sourceColumn line totals.column sourceColumn
  return { totals with source := source, line := sourceLine, column := sourceColumn }

def Totals.segment (totals : Totals) (name : Option UInt32) : Segment :=
  ⟨narrow totals.generated,
    some ⟨narrow totals.source, narrow totals.line, narrow totals.column, name⟩⟩

/-- Reads one segment, and moves the totals. Without any number there is no first one to take, and
the run breaks off. -/
def readSegment (line : Nat) (totals : Totals) (text : List Char) :
    Run Mappings.Fault (Segment × Totals) :=
  match readNumbers text with
  | .error (.fault fault) => .error (.fault (.integer (String.ofList text) fault))
  | .error .broken => .error .broken
  | .ok [] => .error .broken
  | .ok (moved :: fields) => do
      let column ← advance .generatedColumn line totals.generated moved
      let totals := { totals with generated := column }
      match fields with
      | [] => return (⟨narrow column, none⟩, totals)
      | [source, sourceLine, sourceColumn] =>
          let totals ← readPlace line totals source sourceLine sourceColumn
          return (totals.segment none, totals)
      | [source, sourceLine, sourceColumn, name] =>
          let totals ← readPlace line totals source sourceLine sourceColumn
          let name ← advance .nameIndex line totals.name name
          return (totals.segment (some (narrow name)), { totals with name := name })
      | _ => .error (.fault (.fieldCount (String.ofList text) line (fields.length + 1)))

def readSegments (line : Nat) (totals : Totals) :
    List (List Char) → Run Mappings.Fault (Line × Totals)
  | [] => .ok ([], totals)
  | text :: texts => do
      let first ← readSegment line totals text
      let later ← readSegments line first.2 texts
      return (first.1 :: later.1, later.2)

def readLines (line : Nat) (totals : Totals) : List (List Char) → Run Mappings.Fault Mappings
  | [] => .ok []
  | text :: texts => do
      let first ← readSegments line { totals with generated := 0 } (Mappings.pieces text)
      let later ← readLines (line + 1) first.2 texts
      return first.1 :: later

def read (text : String) : Run Mappings.Fault Mappings :=
  readLines 0 .start (text.toList.splitOn ';')

/-- The words hold these numbers, and none is so large that a total leaves the words with it. -/
def Hold (words : List Int64) (numbers : List Int) : Prop :=
  words.map Int64.toInt = numbers ∧ ∀ number ∈ numbers, number.natAbs < 2 ^ 59

theorem signed_eq (Fault : Type) {value : Int64} {number : Nat} (same : value.toInt = number)
    (small : number < 2 ^ 60) :
    ∃ word, (signed value : Run Fault Int64) = .ok word ∧
      word.toInt = Vlq.ofUnsigned number ∧ (Vlq.ofUnsigned number).natAbs < 2 ^ 59 := by
  have worth : value.toInt / 2 ^ 1 = (number / 2 : Nat) := by
    rw [same]
    rfl
  have near : Fits (value.toInt / 2 ^ 1) := by
    rw [worth]
    exact fits_nat (by omega)
  obtain ⟨half, shifted, halved⟩ := shift_down_eq Fault (by decide : 1 < 64) near
  have held : half.toInt = (number / 2 : Nat) := halved.trans worth
  unfold signed Vlq.ofUnsigned
  rw [bind_of_ok shifted]
  by_cases negative : number % 2 = 1
  · have fits : Fits (-half.toInt) := by
      rw [held]
      constructor <;> omega
    obtain ⟨opposite, negated, equal⟩ := negate_eq Fault fits
    rw [if_pos ((is_odd_iff same).2 negative), if_pos negative]
    refine ⟨opposite, negated, ?_, ?_⟩
    · rw [equal, held]
    · omega
  · rw [if_neg (mt (is_odd_iff same).1 negative), if_neg negative]
    refine ⟨half, rfl, held, ?_⟩
    omega

theorem bits_eq (Fault : Type) {digit count : Nat} (small : digit < 64) (room : count < 12) :
    ∃ word, (shiftUp (Int64.ofNat digit &&& 31) (5 * count) : Run Fault Int64) = .ok word ∧
      word.toInt = ((digit % 32) <<< (5 * count) : Nat) ∧
      (digit % 32) <<< (5 * count) ≤ 31 * 32 ^ count := by
  have held : (Int64.ofNat digit).toInt = digit := Int64.toInt_ofNat_of_lt (by omega)
  have low := low_bits_eq held
  have power : 2 ^ (5 * count) = 32 ^ count := by rw [Nat.pow_mul]
  have most : 32 ^ count ≤ 32 ^ 11 := Nat.pow_le_pow_right (by decide) (by omega)
  have bound : (digit % 32) <<< (5 * count) ≤ 31 * 32 ^ count := by
    rw [Nat.shiftLeft_eq, power]
    exact Nat.mul_le_mul_right _ (by omega)
  have worth : (Int64.ofNat digit &&& 31).toInt * 2 ^ (5 * count) =
      ((digit % 32) <<< (5 * count) : Nat) := by
    rw [low, Nat.shiftLeft_eq]
    push_cast
    rfl
  have fits : Fits ((Int64.ofNat digit &&& 31).toInt * 2 ^ (5 * count)) := by
    rw [worth]
    exact fits_nat (Nat.lt_of_le_of_lt bound (by omega))
  obtain ⟨word, shifted, same⟩ := shift_up_eq Fault (by omega : 5 * count < 64) fits
  exact ⟨word, shifted, same.trans worth, bound⟩

/-- One more digit: its bits at their place, and the value with them. -/
theorem grow_eq (Fault : Type) {digit count number : Nat} {value : Int64}
    (same : value.toInt = number) (small : number < 32 ^ count) (room : count < 12)
    (digitBound : digit < 64) :
    ∃ bits grown, (shiftUp (Int64.ofNat digit &&& 31) (5 * count) : Run Fault Int64) = .ok bits ∧
      (add value bits : Run Fault Int64) = .ok grown ∧
      grown.toInt = (number + (digit % 32) <<< (5 * count) : Nat) ∧
      number + (digit % 32) <<< (5 * count) < 32 ^ (count + 1) := by
  obtain ⟨bits, shifted, placed, bound⟩ := bits_eq Fault digitBound room
  have power : 32 ^ (count + 1) = 32 * 32 ^ count := Nat.pow_succ'
  have limit : 32 ^ (count + 1) ≤ 32 ^ 12 := Nat.pow_le_pow_right (by decide) (by omega)
  have less : number + (digit % 32) <<< (5 * count) < 32 ^ (count + 1) := by omega
  have worth : value.toInt + bits.toInt = (number + (digit % 32) <<< (5 * count) : Nat) := by
    rw [same, placed, Int.natCast_add]
  have fits : Fits (value.toInt + bits.toInt) := by
    rw [worth]
    exact fits_nat (by omega)
  obtain ⟨grown, added, sum⟩ := add_eq Fault fits
  exact ⟨bits, grown, shifted, added, sum.trans worth, less⟩

/-- Reads on from `count` digits, which have no bits beyond them. -/
theorem follows_read_from {text : List Char} {offset count number : Nat} {value : Int64}
    (same : value.toInt = number) (small : number < 32 ^ count) (few : count ≤ Vlq.maxDigits) :
    Follows Hold (readFrom offset (5 * count) value text)
      (Vlq.decodeFrom offset count number text) := by
  have most : Vlq.maxDigits = 12 := rfl
  -- A digit is taken only while `count` is below the limit, so its bits stay within sixty.
  induction text generalizing offset count number value with
  | nil =>
      cases count with
      | zero => exact .ok ⟨rfl, by simp⟩
      | succ count =>
          rw [readFrom, if_neg (by omega)]
          exact .fault _
  | cons char rest induction =>
      rw [readFrom]
      cases read : Base64.digitValue? char with
      | none =>
          rw [Vlq.decodeFrom, read]
          exact .fault _
      | some digit =>
          by_cases full : Vlq.maxDigits ≤ count
          · rw [Vlq.decode_from_full read rest full]
            simp only [if_pos (by omega : 55 < 5 * count)]
            exact .fault _
          have room : count < Vlq.maxDigits := Nat.not_le.1 full
          have digitBound := Base64.digit_value_lt read
          have held : (Int64.ofNat digit).toInt = digit := Int64.toInt_ofNat_of_lt (by omega)
          obtain ⟨bits, grown, shifted, added, sum, less⟩ :=
            grow_eq Vlq.Fault same small room digitBound
          rw [← Vlq.low_bits_of_digit_value read] at sum less
          simp only [if_neg (by omega : ¬55 < 5 * count)]
          apply Follows.step shifted
          apply Follows.step added
          rcases Vlq.kind_of_digit_value read with ⟨last, ends⟩ | ⟨large, goes⟩
          · have limit : 32 ^ (count + 1) ≤ 32 ^ 12 := Nat.pow_le_pow_right (by decide) room
            obtain ⟨word, taken, equal, near⟩ := signed_eq Vlq.Fault sum (by omega)
            rw [if_pos ((is_unmarked_iff held digitBound).2 last),
              Vlq.decode_from_last ends rest room]
            apply Follows.step taken
            have later := @induction (offset + 1) 0 0 0 rfl (by decide) (Nat.zero_le _)
            apply later.map
            rintro words numbers ⟨all, bounds⟩
            constructor
            · rw [List.map_cons, equal, all]
            · rw [List.forall_mem_cons]
              exact ⟨near, bounds⟩
          · have marked : ¬digit < 32 := Nat.not_lt.2 large
            rw [if_neg (mt (is_unmarked_iff held digitBound).1 marked),
              Vlq.decode_from_marked goes rest room]
            exact induction sum less room

theorem follows_read_numbers (text : List Char) :
    Follows Hold (readNumbers text) (Vlq.decode text) :=
  follows_read_from rfl (by decide) (Nat.zero_le _)

def Carries (word : Int64) (total : UInt32) : Prop := word.toInt = total.toNat

theorem Carries.narrow {word : Int64} {total : UInt32} (carries : Carries word total) :
    narrow word = total := by
  rw [Words.narrow, carries, Int.toNat_natCast, UInt32.ofNat_toNat]

structure Totals.Matches (words : Totals) (totals : Mappings.Totals) (column : UInt32) : Prop where
  generated : Carries words.generated column
  source : Carries words.source totals.source
  line : Carries words.line totals.line
  column : Carries words.column totals.column
  name : Carries words.name totals.name

theorem Totals.Matches.segment {words : Totals} {source line column name generated : UInt32}
    (same : words.Matches ⟨source, line, column, name⟩ generated) (named : Option UInt32) :
    words.segment named = ⟨generated, some ⟨source, line, column, named⟩⟩ := by
  rw [Totals.segment, same.generated.narrow, same.source.narrow, same.line.narrow,
    same.column.narrow]

theorem follows_advance {field : Mappings.Field} {line : Nat} {word delta : Int64}
    {total : UInt32} (carries : Carries word total) (small : delta.toInt.natAbs < 2 ^ 59) :
    Follows Carries (advance field line word delta)
      (Mappings.advance field line total delta.toInt) := by
  have bound := total.toNat_lt
  have fits : Fits (word.toInt + delta.toInt) := by
    rw [carries]
    constructor <;> omega
  obtain ⟨moved, added, sum⟩ := add_eq Mappings.Fault fits
  rw [carries] at sum
  apply Follows.step added
  unfold Mappings.advance
  rw [← sum]
  by_cases inside : 0 ≤ moved.toInt ∧ moved.toInt < UInt32.size
  · have same : Carries moved (UInt32.ofNat moved.toInt.toNat) := by
      have less : moved.toInt.toNat < UInt32.size := by omega
      rw [Carries, UInt32.toNat_ofNat_of_lt' less, Int.toNat_of_nonneg inside.1]
    simp only [if_pos inside]
    exact .ok same
  · simp only [if_neg inside]
    exact .fault _

variable {line : Nat} {words : Totals} {totals : Mappings.Totals} {column : UInt32}

theorem follows_read_place {source sourceLine sourceColumn : Int64}
    (same : words.Matches totals column) (first : source.toInt.natAbs < 2 ^ 59)
    (second : sourceLine.toInt.natAbs < 2 ^ 59) (third : sourceColumn.toInt.natAbs < 2 ^ 59) :
    Follows
      (fun moved place => moved.Matches (totals.after ⟨column, some place⟩) column ∧
        place.name = none)
      (readPlace line words source sourceLine sourceColumn)
      (Mappings.readPlace line totals source.toInt sourceLine.toInt sourceColumn.toInt) := by
  apply (follows_advance same.source first).bind
  intro sourceWord sourceTotal sourceCarried
  apply (follows_advance same.line second).bind
  intro lineWord lineTotal lineCarried
  apply (follows_advance same.column third).bind
  intro columnWord columnTotal columnCarried
  exact .ok ⟨⟨same.generated, sourceCarried, lineCarried, columnCarried, same.name⟩, rfl⟩

theorem follows_read_segment {text : List Char} (same : words.Matches totals column)
    (written : text ≠ []) :
    Follows
      (fun read segment => read.1 = segment ∧
        read.2.Matches (totals.after segment) segment.generatedColumn)
      (readSegment line words text) (Mappings.readSegment line totals column text) := by
  have numbers := follows_read_numbers text
  unfold readSegment Mappings.readSegment
  cases decoded : Vlq.decode text with
  | error fault =>
      rw [decoded] at numbers
      generalize readNumbers text = run at numbers
      cases numbers with
      | fault fault => exact .fault _
  | ok fields =>
      have filled := (Vlq.decode_eq_ok_iff.1 decoded).ne_nil written
      rw [decoded] at numbers
      generalize readNumbers text = run at numbers
      cases numbers with
      | @ok fieldWords fields hold =>
          obtain ⟨rfl, small⟩ := hold
          cases fieldWords with
          | nil => exact absurd rfl filled
          | cons moved rest =>
              rw [List.map_cons, List.forall_mem_cons] at small
              apply (follows_advance same.generated small.1).bind
              intro columnWord columnTotal carried
              have moved : Totals.Matches { words with generated := columnWord } totals
                columnTotal := ⟨carried, same.source, same.line, same.column, same.name⟩
              -- Fields are counted only now, after the column has been accepted.
              match rest, small.2 with
              | [], _ => exact .ok ⟨by rw [carried.narrow], moved⟩
              | [_], _ | [_, _], _ => exact .fault _
              | [source, sourceLine, sourceColumn], small =>
                  simp only [List.map_cons, List.map_nil, List.forall_mem_cons] at small
                  obtain ⟨first, second, third, -⟩ := small
                  apply (follows_read_place moved first second third).bind
                  rintro places ⟨sourceTotal, lineTotal, placeTotal, -⟩ ⟨located, rfl⟩
                  exact .ok ⟨located.segment none, located⟩
              | [source, sourceLine, sourceColumn, name], small =>
                  simp only [List.map_cons, List.map_nil, List.forall_mem_cons] at small
                  obtain ⟨first, second, third, fourth, -⟩ := small
                  apply (follows_read_place moved first second third).bind
                  rintro places ⟨sourceTotal, lineTotal, placeTotal, -⟩ ⟨located, rfl⟩
                  apply (follows_advance located.name fourth).bind
                  intro nameWord nameTotal named
                  rw [named.narrow]
                  exact .ok ⟨located.segment (some nameTotal),
                    ⟨located.generated, located.source, located.line, located.column, named⟩⟩
              | _ :: _ :: _ :: _ :: _ :: _, _ =>
                  simp only [List.map_cons, List.length_cons, List.length_map]
                  exact .fault _

theorem follows_read_segments {texts : List (List Char)} (same : words.Matches totals column)
    (written : ∀ text ∈ texts, text ≠ []) :
    Follows
      (fun read segments => read.1 = segments ∧
        ∃ last, read.2.Matches (segments.foldl Mappings.Totals.after totals) last)
      (readSegments line words texts) (Mappings.readSegments line totals column texts) := by
  induction texts generalizing words totals column with
  | nil => exact .ok ⟨rfl, column, same⟩
  | cons text texts induction =>
      rw [List.forall_mem_cons] at written
      apply (follows_read_segment same written.1).bind
      rintro ⟨_, moved⟩ segment ⟨rfl, matched⟩
      apply (induction matched written.2).bind
      rintro ⟨_, last⟩ segments ⟨rfl, ended⟩
      exact .ok ⟨rfl, ended⟩

theorem follows_read_lines {texts : List (List Char)} (same : words.Matches totals column) :
    Follows (fun read lines => read = lines) (readLines line words texts)
      (Mappings.readLines line totals texts) := by
  induction texts generalizing line words totals column with
  | nil => exact .ok rfl
  | cons text texts induction =>
      have started : Totals.Matches { words with generated := 0 } totals 0 :=
        ⟨rfl, same.source, same.line, same.column, same.name⟩
      have written : ∀ piece ∈ Mappings.pieces text, piece ≠ [] := fun piece member =>
        of_decide_eq_true (List.mem_filter.1 member).2
      apply (follows_read_segments started written).bind
      rintro ⟨_, moved⟩ segments ⟨rfl, last, ended⟩
      apply (induction ended).bind
      rintro _ lines rfl
      exact .ok rfl

theorem matches_start : Totals.start.Matches .start 0 := ⟨rfl, rfl, rfl, rfl, rfl⟩

theorem read_numbers_eq (text : List Char) :
    (readNumbers text).map (List.map Int64.toInt) = (Vlq.decode text).mapError .fault :=
  ((follows_read_numbers text).mono fun _ _ hold => hold.1).map_eq

theorem read_eq (text : String) : read text = (Mappings.decode text).mapError .fault := by
  have follows : Follows (fun read lines => id read = lines) (read text) (Mappings.decode text) :=
    follows_read_lines matches_start
  have same := follows.map_eq
  rwa [Except.map_id] at same

end MapChain.Words
