import MapChain.Base64
import MapChain.Text.Coding
import MapChain.Text.Quoted

/-!
Variable-length integers. A number is cut into groups of five bits, least significant first, one
digit per group; all digits but the last carry the mark thirty-two. The sign is the lowest bit.
Main statements: the sign bit is taken off exactly, and the text of a number is never empty.
-/

set_option autoImplicit false

namespace MapChain.Vlq

def maxDigits : Nat := 12

inductive Fault where
  /-- A byte that is no digit, shown as the character of its number, and where it stands. -/
  | foreignByte (byte : Char) (offset : Nat)
  | overlong
  | unterminated
  deriving DecidableEq, Repr

def Fault.message (segment : String) : Fault → String
  | .foreignByte byte offset =>
      "invalid base64 character " ++ Quoted.character byte ++ " at offset " ++ toString offset
  | .overlong => "VLQ value overflows in segment " ++ Quoted.text segment
  | .unterminated => "unterminated VLQ value in segment " ++ Quoted.text segment

/-- Twice the magnitude, and one more for a negative number. -/
def toUnsigned (value : Int) : Nat :=
  if value < 0 then 2 * value.natAbs + 1 else 2 * value.natAbs

def ofUnsigned (number : Nat) : Int :=
  if number % 2 = 1 then -((number / 2 : Nat) : Int) else ((number / 2 : Nat) : Int)

theorem of_unsigned_to_unsigned (value : Int) : ofUnsigned (toUnsigned value) = value := by
  unfold ofUnsigned toUnsigned
  split <;> split <;> omega

def encodeNat (number : Nat) : List Char :=
  if number < 32 then [Base64.digitChar number]
  else Base64.digitChar (number % 32 + 32) :: encodeNat (number / 32)
termination_by number
decreasing_by omega

def encode (value : Int) : List Char := encodeNat (toUnsigned value)

def encodeAll (values : List Int) : List Char := values.flatMap encode

theorem encode_nat_ne_nil (number : Nat) : encodeNat number ≠ [] := by
  rw [encodeNat]
  split <;> simp

theorem encode_ne_nil (value : Int) : encode value ≠ [] := encode_nat_ne_nil _

/-- Reads on from `offset`, inside a number of which `count` digits worth `number` are read. -/
def decodeFrom : (offset count number : Nat) → List Char → Except Fault (List Int)
  | _, 0, _, [] => .ok []
  | _, _ + 1, _, [] => .error .unterminated
  | offset, count, number, char :: rest =>
      match Base64.digitValue? char with
      | none => .error (.foreignByte (Char.ofNat (Utf8.leadByte char).toNat) offset)
      | some digit =>
          if maxDigits ≤ count then .error .overlong
          else
            let grown := number + (digit % 32) <<< (5 * count)
            if digit < 32 then
              match decodeFrom (offset + 1) 0 0 rest with
              | .ok values => .ok (ofUnsigned grown :: values)
              | .error fault => .error fault
            else decodeFrom (offset + 1) (count + 1) grown rest

def decode (text : List Char) : Except Fault (List Int) := decodeFrom 0 0 0 text

end MapChain.Vlq
