import MapChain.Mappings.Vlq
import Mathlib.Data.Nat.Digits.Defs
import Mathlib.Tactic.Ring

/-!
The texts that numbers are read from: rows of groups of digits, each with a mark on all its digits
but the last, and with at most twelve of them. Main statement: a text is read exactly if it is such
a row, and then as the numbers of its groups.
-/

set_option autoImplicit false

namespace MapChain.Vlq

def IsMarked (char : Char) : Prop :=
  ('g' ≤ char ∧ char ≤ 'z') ∨ ('0' ≤ char ∧ char ≤ '9') ∨ char = '+' ∨ char = '/'

def IsLast (char : Char) : Prop := ('A' ≤ char ∧ char ≤ 'Z') ∨ ('a' ≤ char ∧ char ≤ 'f')

def lowBits (char : Char) : Nat := (Base64.digitValue? char).getD 0 % 32

def unsigned (text : List Char) : Nat := Nat.ofDigits 32 (text.map lowBits)

/-- The digits of one number: up to eleven marked ones and one that is not, the lowest bits
first. -/
def Group (text : List Char) (value : Int) : Prop :=
  ∃ marked last, text = marked ++ [last] ∧ marked.length ≤ 11 ∧ (∀ char ∈ marked, IsMarked char) ∧
    IsLast last ∧ value = ofUnsigned (unsigned text)

inductive Spells : List Char → List Int → Prop where
  | nil : Spells [] []
  | cons {group rest : List Char} {value : Int} {values : List Int} (first : Group group value)
      (later : Spells rest values) : Spells (group ++ rest) (value :: values)

theorem digit_value_of_is_last {char : Char} (ends : IsLast char) :
    ∃ digit, Base64.digitValue? char = some digit ∧ digit < 32 := by
  unfold Base64.digitValue?
  rcases ends with ⟨low, high⟩ | ⟨low, high⟩
  · have low : 65 ≤ char.toNat := low
    have high : char.toNat ≤ 90 := high
    exact ⟨char.toNat - 65, if_pos ⟨low, high⟩, by omega⟩
  · have low : 97 ≤ char.toNat := low
    have high : char.toNat ≤ 102 := high
    refine ⟨char.toNat - 71, ?_, by omega⟩
    rw [if_neg (by omega), if_pos (by omega)]

theorem digit_value_of_is_marked {char : Char} (goes : IsMarked char) :
    ∃ digit, Base64.digitValue? char = some digit ∧ 32 ≤ digit := by
  rcases goes with ⟨low, high⟩ | ⟨low, high⟩ | rfl | rfl
  · have low : 103 ≤ char.toNat := low
    have high : char.toNat ≤ 122 := high
    refine ⟨char.toNat - 71, ?_, by omega⟩
    unfold Base64.digitValue?
    rw [if_neg (by omega), if_pos (by omega)]
  · have low : 48 ≤ char.toNat := low
    have high : char.toNat ≤ 57 := high
    refine ⟨char.toNat + 4, ?_, by omega⟩
    unfold Base64.digitValue?
    rw [if_neg (by omega), if_neg (by omega), if_pos (by omega)]
  · exact ⟨62, rfl, by omega⟩
  · exact ⟨63, rfl, by omega⟩

theorem kind_of_digit_value {char : Char} {digit : Nat}
    (read : Base64.digitValue? char = some digit) :
    (digit < 32 ∧ IsLast char) ∨ (32 ≤ digit ∧ IsMarked char) := by
  simp only [Base64.digitValue?] at read
  split at read
  next range =>
    cases read
    exact Or.inl ⟨by omega, Or.inl range⟩
  split at read
  next range =>
    cases read
    by_cases low : char.toNat ≤ 102
    · exact Or.inl ⟨by omega, Or.inr ⟨range.1, low⟩⟩
    · have high : 103 ≤ char.toNat := by omega
      exact Or.inr ⟨by omega, Or.inl ⟨high, range.2⟩⟩
  split at read
  next range =>
    cases read
    exact Or.inr ⟨by omega, Or.inr (Or.inl range)⟩
  split at read
  next plus =>
    cases read
    exact Or.inr ⟨by omega, Or.inr (Or.inr (Or.inl plus))⟩
  split at read
  next slash =>
    cases read
    exact Or.inr ⟨by omega, Or.inr (Or.inr (Or.inr slash))⟩
  next => cases read

theorem low_bits_of_digit_value {char : Char} {digit : Nat}
    (read : Base64.digitValue? char = some digit) : lowBits char = digit % 32 := by
  rw [lowBits, read]
  rfl

theorem join_digits (number count : Nat) (char : Char) (rest : List Char) :
    number + lowBits char <<< (5 * count) + unsigned rest <<< (5 * (count + 1)) =
      number + unsigned (char :: rest) <<< (5 * count) := by
  have power : 2 ^ (5 * (count + 1)) = 32 * 2 ^ (5 * count) := by
    rw [Nat.mul_succ, pow_add]
    ring
  have whole : unsigned (char :: rest) = lowBits char + 32 * unsigned rest := by
    simp [unsigned, Nat.ofDigits_cons]
  simp only [Nat.shiftLeft_eq, power, whole]
  ring

theorem decode_from_last {offset count number : Nat} {char : Char} (ends : IsLast char)
    (rest : List Char) (room : count < maxDigits) :
    decodeFrom offset count number (char :: rest) =
      (decodeFrom (offset + 1) 0 0 rest).map
        (ofUnsigned (number + lowBits char <<< (5 * count)) :: ·) := by
  obtain ⟨digit, read, small⟩ := digit_value_of_is_last ends
  rw [decodeFrom, low_bits_of_digit_value read, read]
  simp only [if_neg (Nat.not_le.2 room), if_pos small]
  cases decodeFrom (offset + 1) 0 0 rest <;> rfl

theorem decode_from_marked {offset count number : Nat} {char : Char} (goes : IsMarked char)
    (rest : List Char) (room : count < maxDigits) :
    decodeFrom offset count number (char :: rest) =
      decodeFrom (offset + 1) (count + 1) (number + lowBits char <<< (5 * count)) rest := by
  obtain ⟨digit, read, large⟩ := digit_value_of_is_marked goes
  rw [decodeFrom, low_bits_of_digit_value read, read]
  simp only [if_neg (Nat.not_le.2 room), if_neg (Nat.not_lt.2 large)]

/-- Reads to the end of a number of which `count` digits are behind. -/
theorem decode_from_group {offset count number : Nat} {marked : List Char} {last : Char}
    (goes : ∀ char ∈ marked, IsMarked char) (ends : IsLast last) (rest : List Char)
    (room : count + marked.length < maxDigits) :
    decodeFrom offset count number (marked ++ last :: rest) =
      (decodeFrom (offset + marked.length + 1) 0 0 rest).map
        (ofUnsigned (number + unsigned (marked ++ [last]) <<< (5 * count)) :: ·) := by
  induction marked generalizing offset count number with
  | nil =>
      have single : unsigned [last] = lowBits last := by simp [unsigned]
      rw [List.nil_append, decode_from_last ends rest (by simpa using room), List.nil_append,
        single]
      rfl
  | cons char marked induction =>
      rw [List.length_cons] at room
      have first : IsMarked char := goes char List.mem_cons_self
      have later : ∀ other ∈ marked, IsMarked other := fun other member =>
        goes other (List.mem_cons_of_mem char member)
      rw [List.cons_append, decode_from_marked first _ (by omega), induction later (by omega),
        join_digits, List.length_cons, List.cons_append, Nat.add_right_comm offset 1,
        Nat.add_assoc offset marked.length 1]

theorem decode_from_spells {text : List Char} {values : List Int} (spelled : Spells text values)
    (offset : Nat) : decodeFrom offset 0 0 text = .ok values := by
  induction spelled generalizing offset with
  | nil => rfl
  | @cons group rest value values first later induction =>
      obtain ⟨marked, last, rfl, short, goes, ends, rfl⟩ := first
      have room : 0 + marked.length < maxDigits := by
        rw [Nat.zero_add]
        exact Nat.lt_succ_of_le short
      rw [List.append_assoc, List.singleton_append, decode_from_group goes ends rest room,
        induction]
      simp [Except.map]

/-- What is read inside a number is the rest of its digits, and whole groups after them. -/
def Continues (count number : Nat) (text : List Char) (values : List Int) : Prop :=
  ∃ marked last rest others, text = marked ++ last :: rest ∧ count + marked.length < maxDigits ∧
    (∀ char ∈ marked, IsMarked char) ∧ IsLast last ∧ Spells rest others ∧
    values = ofUnsigned (number + unsigned (marked ++ [last]) <<< (5 * count)) :: others

theorem Continues.spells {text : List Char} {values : List Int}
    (continues : Continues 0 0 text values) : Spells text values := by
  obtain ⟨marked, last, rest, others, rfl, short, goes, ends, later, rfl⟩ := continues
  have within : marked.length ≤ 11 := by
    rw [Nat.zero_add] at short
    exact Nat.le_of_lt_succ short
  have group : Group (marked ++ [last]) (ofUnsigned (unsigned (marked ++ [last]))) :=
    ⟨marked, last, rfl, within, goes, ends, rfl⟩
  have whole := Spells.cons group later
  rw [List.append_assoc, List.singleton_append] at whole
  simpa using whole

theorem continues_last {count number : Nat} {char : Char} {rest : List Char} {others : List Int}
    (ends : IsLast char) (room : count < maxDigits) (spelled : Spells rest others) :
    Continues count number (char :: rest)
      (ofUnsigned (number + lowBits char <<< (5 * count)) :: others) := by
  have single : unsigned [char] = lowBits char := by simp [unsigned]
  refine ⟨[], char, rest, others, rfl, room, by simp, ends, spelled, ?_⟩
  rw [List.nil_append, single]

theorem Continues.cons {count number : Nat} {char : Char} {rest : List Char} {values : List Int}
    (goes : IsMarked char)
    (continues : Continues (count + 1) (number + lowBits char <<< (5 * count)) rest values) :
    Continues count number (char :: rest) values := by
  obtain ⟨marked, last, more, others, rfl, short, all, ends, spelled, rfl⟩ := continues
  refine ⟨char :: marked, last, more, others, rfl, ?_, ?_, ends, spelled, ?_⟩
  · rw [List.length_cons]
    omega
  · rw [List.forall_mem_cons]
    exact ⟨goes, all⟩
  · rw [join_digits, List.cons_append]

/-- Whatever is read begins with the end of the number that is being read, if there is one. -/
theorem spelled_of_decode_from {offset count number : Nat} {text : List Char} {values : List Int}
    (fresh : count = 0 → number = 0) (read : decodeFrom offset count number text = .ok values) :
    (count = 0 ∧ Spells text values) ∨ Continues count number text values := by
  induction text generalizing offset count number values with
  | nil =>
      cases count with
      | zero =>
          cases read
          exact Or.inl ⟨rfl, .nil⟩
      | succ count => cases read
  | cons char rest induction =>
      cases worth : Base64.digitValue? char with
      | none =>
          rw [decodeFrom, worth] at read
          cases read
      | some digit =>
          by_cases room : count < maxDigits
          · rcases kind_of_digit_value worth with ⟨-, ends⟩ | ⟨-, goes⟩
            · rw [decode_from_last ends rest room] at read
              cases later : decodeFrom (offset + 1) 0 0 rest with
              | error fault =>
                  rw [later] at read
                  cases read
              | ok others =>
                  rw [later] at read
                  cases read
                  have spelled : Spells rest others := by
                    rcases induction (fun _ => rfl) later with ⟨-, spelled⟩ | continues
                    · exact spelled
                    · exact continues.spells
                  exact Or.inr (continues_last ends room spelled)
            · rw [decode_from_marked goes rest room] at read
              have inside : count + 1 = 0 → number + lowBits char <<< (5 * count) = 0 := by
                intro start
                omega
              rcases induction inside read with ⟨start, -⟩ | continues
              · cases start
              · exact Or.inr (continues.cons goes)
          · rw [decodeFrom, worth] at read
            simp only [if_pos (Nat.not_lt.1 room)] at read
            cases read

theorem decode_eq_ok_iff {text : List Char} {values : List Int} :
    decode text = .ok values ↔ Spells text values := by
  constructor
  · intro read
    rcases spelled_of_decode_from (fun _ => rfl) read with ⟨-, spelled⟩ | continues
    · exact spelled
    · exact continues.spells
  · intro spelled
    exact decode_from_spells spelled 0

theorem Spells.ne_nil {text : List Char} {values : List Int} (spelled : Spells text values)
    (written : text ≠ []) : values ≠ [] := by
  cases spelled with
  | nil => exact absurd rfl written
  | cons first later => simp

end MapChain.Vlq
