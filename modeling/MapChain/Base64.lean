/-!
The sixty-four digits, in value order `A-Z`, `a-z`, `0-9`, `+`, `/`, and bytes as text of digits,
three bytes to four digits, filled up with equals signs. Main statements: reading a written digit
gives its value back, and a character that reads as a value is that value's digit.
-/

set_option autoImplicit false

namespace MapChain.Base64

def digitChar (value : Nat) : Char :=
  if value < 26 then Char.ofNat (65 + value)
  else if value < 52 then Char.ofNat (71 + value)
  else if value < 62 then Char.ofNat (value - 4)
  else if value = 62 then '+'
  else '/'

def digitValue? (char : Char) : Option Nat :=
  let code := char.toNat
  if 65 ≤ code ∧ code ≤ 90 then some (code - 65)
  else if 97 ≤ code ∧ code ≤ 122 then some (code - 71)
  else if 48 ≤ code ∧ code ≤ 57 then some (code + 4)
  else if char = '+' then some 62
  else if char = '/' then some 63
  else none

theorem digit_value_digit_char {value : Nat} (small : value < 64) :
    digitValue? (digitChar value) = some value := by
  have all : ∀ digit : Fin 64, digitValue? (digitChar digit) = some digit.val := by decide
  exact all ⟨value, small⟩

theorem digit_value_lt {char : Char} {value : Nat} (read : digitValue? char = some value) :
    value < 64 := by
  simp only [digitValue?] at read
  split at read
  · simp only [Option.some.injEq] at read; omega
  split at read
  · simp only [Option.some.injEq] at read; omega
  split at read
  · simp only [Option.some.injEq] at read; omega
  split at read
  · simp only [Option.some.injEq] at read; omega
  split at read
  · simp only [Option.some.injEq] at read; omega
  · simp at read

theorem digit_char_of_digit_value {char : Char} {value : Nat}
    (read : digitValue? char = some value) : digitChar value = char := by
  have shown {number : Nat} (same : number = char.toNat) : Char.ofNat number = char := by
    rw [same, Char.ofNat_toNat]
  simp only [digitValue?] at read
  unfold digitChar
  split at read
  · simp only [Option.some.injEq] at read
    rw [if_pos (by omega)]
    exact shown (by omega)
  split at read
  · simp only [Option.some.injEq] at read
    rw [if_neg (by omega), if_pos (by omega)]
    exact shown (by omega)
  split at read
  · simp only [Option.some.injEq] at read
    rw [if_neg (by omega), if_neg (by omega), if_pos (by omega)]
    exact shown (by omega)
  split at read
  · next plus =>
      simp only [Option.some.injEq] at read
      subst read plus
      rfl
  split at read
  · next slash =>
      simp only [Option.some.injEq] at read
      subst read slash
      rfl
  · simp at read

def encode : List UInt8 → List Char
  | [] => []
  | [first] =>
      let number := first.toNat * 16
      [digitChar (number / 64), digitChar (number % 64), '=', '=']
  | [first, second] =>
      let number := (first.toNat * 256 + second.toNat) * 4
      [digitChar (number / 4096), digitChar (number / 64 % 64), digitChar (number % 64), '=']
  | first :: second :: third :: rest =>
      let number := (first.toNat * 256 + second.toNat) * 256 + third.toNat
      digitChar (number / 262144) :: digitChar (number / 4096 % 64) ::
        digitChar (number / 64 % 64) :: digitChar (number % 64) :: encode rest

def number? (digits : List Char) : Option Nat :=
  digits.foldlM (fun number digit => (digitValue? digit).map (number * 64 + ·)) 0

/-- Bits that stand for no byte have to be zero. -/
def decode : List Char → Option (List UInt8)
  | [] => some []
  | [first, second, '=', '='] => do
      let number ← number? [first, second]
      if number % 16 = 0 then some [UInt8.ofNat (number / 16)] else none
  | [first, second, third, '='] => do
      let number ← number? [first, second, third]
      if number % 4 = 0 then
        some [UInt8.ofNat (number / 1024), UInt8.ofNat (number / 4)]
      else none
  | first :: second :: third :: fourth :: rest => do
      let number ← number? [first, second, third, fourth]
      let bytes ← decode rest
      return UInt8.ofNat (number / 65536) :: UInt8.ofNat (number / 256) :: UInt8.ofNat number ::
        bytes
  | _ => none

end MapChain.Base64
