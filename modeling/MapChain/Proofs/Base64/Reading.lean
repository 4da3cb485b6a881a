import MapChain.Base64
import Mathlib.Data.List.Chain

/-!
Bytes that are written as digits. Main statements: they are read back, and in what is written an
equals sign follows only digits that leave bits unused.
-/

set_option autoImplicit false

namespace MapChain.Base64

def IsWritten (char : Char) : Prop := char = '=' ∨ ∃ value < 64, char = digitChar value

theorem digit_char_ne_fill {value : Nat} (small : value < 64) : digitChar value ≠ '=' := by
  have all : ∀ digit : Fin 64, digitChar digit ≠ '=' := by decide
  exact all ⟨value, small⟩

theorem byte_of_number (byte : UInt8) {number : Nat} (low : number % 256 = byte.toNat) :
    UInt8.ofNat number = byte := by
  rw [← UInt8.toNat_inj, UInt8.toNat_ofNat']
  exact low

theorem number_of_digits (values : List Nat) {number : Nat}
    (small : ∀ value ∈ values, value < 64)
    (sum : values.foldl (fun number value => number * 64 + value) 0 = number) :
    number? (values.map digitChar) = some number := by
  have folded (start : Nat) :
      (values.map digitChar).foldlM
          (fun number digit => (digitValue? digit).map (number * 64 + ·)) start =
        some (values.foldl (fun number value => number * 64 + value) start) := by
    clear sum
    induction values generalizing start with
    | nil => rfl
    | cons value values induction =>
        rw [List.forall_mem_cons] at small
        rw [List.map_cons, List.foldlM_cons, digit_value_digit_char small.1]
        exact induction small.2 _
  rw [← sum]
  exact folded 0

theorem decode_encode (bytes : List UInt8) : decode (encode bytes) = some bytes := by
  induction bytes using encode.induct with
  | case1 => rfl
  | case2 first =>
      have bound := first.toNat_lt
      rw [encode, decode]
      generalize whole : first.toNat * 16 = number
      have read : number? [digitChar (number / 64), digitChar (number % 64)] = some number :=
        number_of_digits [number / 64, number % 64] (by simp; omega) (by simp; omega)
      simp only [read, Option.bind_eq_bind, Option.bind_some]
      rw [if_pos (by omega), byte_of_number first (by omega)]
  | case3 first second =>
      have bound := first.toNat_lt
      have limit := second.toNat_lt
      rw [encode, decode]
      · generalize whole : (first.toNat * 256 + second.toNat) * 4 = number
        have read : number? [digitChar (number / 4096), digitChar (number / 64 % 64),
            digitChar (number % 64)] = some number :=
          number_of_digits [number / 4096, number / 64 % 64, number % 64]
            (by simp; omega) (by simp; omega)
        simp only [read, Option.bind_eq_bind, Option.bind_some]
        rw [if_pos (by omega), byte_of_number first (by omega),
          byte_of_number second (by omega)]
      · exact digit_char_ne_fill (by omega)
  | case4 first second third rest induction =>
      have bound := first.toNat_lt
      have limit := second.toNat_lt
      have last := third.toNat_lt
      rw [encode, decode]
      · generalize whole : (first.toNat * 256 + second.toNat) * 256 + third.toNat = number
        have read : number? [digitChar (number / 262144), digitChar (number / 4096 % 64),
            digitChar (number / 64 % 64), digitChar (number % 64)] = some number :=
          number_of_digits [number / 262144, number / 4096 % 64, number / 64 % 64, number % 64]
            (by simp; omega) (by simp; omega)
        simp only [read, induction, Option.bind_eq_bind, Option.bind_some]
        rw [byte_of_number first (by omega), byte_of_number second (by omega),
          byte_of_number third (by omega)]
        rfl
      · intro fill
        exact absurd fill (digit_char_ne_fill (by omega))
      · intro fill
        exact absurd fill (digit_char_ne_fill (by omega))

theorem is_written_of_mem {bytes : List UInt8} {char : Char} (member : char ∈ encode bytes) :
    IsWritten char := by
  induction bytes using encode.induct with
  | case1 => cases member
  | case2 first =>
      have bound := first.toNat_lt
      rw [encode] at member
      simp only [List.mem_cons, List.not_mem_nil, or_false] at member
      rcases member with same | same | same | same
      · exact Or.inr ⟨_, by omega, same⟩
      · exact Or.inr ⟨_, by omega, same⟩
      · exact Or.inl same
      · exact Or.inl same
  | case3 first second =>
      have bound := first.toNat_lt
      have limit := second.toNat_lt
      rw [encode] at member
      simp only [List.mem_cons, List.not_mem_nil, or_false] at member
      rcases member with same | same | same | same
      · exact Or.inr ⟨_, by omega, same⟩
      · exact Or.inr ⟨_, by omega, same⟩
      · exact Or.inr ⟨_, by omega, same⟩
      · exact Or.inl same
  | case4 first second third rest induction =>
      have bound := first.toNat_lt
      have limit := second.toNat_lt
      have last := third.toNat_lt
      rw [encode] at member
      simp only [List.mem_cons] at member
      rcases member with same | same | same | same | later
      · exact Or.inr ⟨_, by omega, same⟩
      · exact Or.inr ⟨_, by omega, same⟩
      · exact Or.inr ⟨_, by omega, same⟩
      · exact Or.inr ⟨_, by omega, same⟩
      · exact induction later

theorem not_is_written {char : Char} (other : char ≠ '=') (foreign : digitValue? char = none) :
    ¬IsWritten char := by
  rintro (same | ⟨value, small, same⟩)
  · exact other same
  · rw [same, digit_value_digit_char small] at foreign
    cases foreign

/-- Before an equals sign stands another one, or a digit whose two low bits are not used. -/
def Fills (before char : Char) : Prop :=
  char = '=' → before = '=' ∨ ∃ value < 64, value % 4 = 0 ∧ before = digitChar value

theorem fills_digit {value : Nat} (small : value < 64) (before : Char) :
    Fills before (digitChar value) := by
  intro fill
  exact absurd fill (digit_char_ne_fill small)

theorem fills_after_digit {value : Nat} (small : value < 64) (unused : value % 4 = 0) :
    Fills (digitChar value) '=' := fun _ => Or.inr ⟨value, small, unused, rfl⟩

theorem fills_head_encode (before : Char) {bytes : List UInt8} {char : Char}
    (first : char ∈ (encode bytes).head?) : Fills before char := by
  cases bytes using encode.induct with
  | case1 => cases first
  | case2 byte =>
      have bound := byte.toNat_lt
      cases first
      exact fills_digit (by omega) before
  | case3 byte second =>
      have bound := byte.toNat_lt
      have limit := second.toNat_lt
      cases first
      exact fills_digit (by omega) before
  | case4 byte second third rest =>
      have bound := byte.toNat_lt
      have limit := second.toNat_lt
      have last := third.toNat_lt
      cases first
      exact fills_digit (by omega) before

theorem is_chain_encode (bytes : List UInt8) : (encode bytes).IsChain Fills := by
  induction bytes using encode.induct with
  | case1 => exact .nil
  | case2 first =>
      have bound := first.toNat_lt
      rw [encode]
      refine .cons_cons (fills_digit (by omega) _) (.cons_cons ?_ (.cons_cons ?_ (.singleton _)))
      · exact fills_after_digit (by omega) (by omega)
      · exact Or.inl
  | case3 first second =>
      have bound := first.toNat_lt
      have limit := second.toNat_lt
      rw [encode]
      refine .cons_cons (fills_digit (by omega) _)
        (.cons_cons (fills_digit (by omega) _) (.cons_cons ?_ (.singleton _)))
      exact fills_after_digit (by omega) (by omega)
  | case4 first second third rest induction =>
      have bound := first.toNat_lt
      have limit := second.toNat_lt
      have last := third.toNat_lt
      rw [encode]
      refine .cons_cons (fills_digit (by omega) _) (.cons_cons (fills_digit (by omega) _)
        (.cons_cons (fills_digit (by omega) _) (List.isChain_cons.2 ⟨?_, induction⟩)))
      intro char head
      exact fills_head_encode _ head

end MapChain.Base64
