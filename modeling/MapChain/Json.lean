import MapChain.Text.Quoted

/-!
JSON values, as far as their text can tell them apart, their compact text, and how a text is read.
In the written text quotes, backslashes and control characters are escaped, and every other
character stands for itself.
-/

set_option autoImplicit false

namespace MapChain

/-- A number keeps its literal. A string literal with an unpaired surrogate is well formed and
names no text. -/
inductive Json where
  | null
  | bool (value : Bool)
  | number (literal : String)
  | string (text : Option String)
  | array (items : List Json)
  | object (members : List (Option String × Json))
  deriving Inhabited, Repr

end MapChain

namespace MapChain.Json

def printChar (char : Char) : List Char :=
  if char = '"' then ['\\', '"']
  else if char = '\\' then ['\\', '\\']
  else if char = '\x08' then ['\\', 'b']
  else if char = '\x0c' then ['\\', 'f']
  else if char = '\n' then ['\\', 'n']
  else if char = '\r' then ['\\', 'r']
  else if char = '\t' then ['\\', 't']
  else if char.toNat < 0x20 then
    ['\\', 'u', '0', '0', Quoted.hexDigit (char.toNat / 16), Quoted.hexDigit (char.toNat % 16)]
  else [char]

def printText (text : String) : List Char := '"' :: (text.toList.flatMap printChar ++ ['"'])

/-- A string that names no text is written as an unpaired surrogate. -/
def printString : Option String → List Char
  | some text => printText text
  | none => ['"', '\\', 'u', 'd', '8', '0', '0', '"']

mutual

def print : Json → List Char
  | .null => ['n', 'u', 'l', 'l']
  | .bool true => ['t', 'r', 'u', 'e']
  | .bool false => ['f', 'a', 'l', 's', 'e']
  | .number literal => literal.toList
  | .string text => printString text
  | .array [] => ['[', ']']
  | .array (item :: items) => '[' :: (print item ++ printItems items)
  | .object [] => ['\x7b', '\x7d']
  | .object ((key, value) :: members) =>
      '\x7b' :: (printString key ++ ':' :: (print value ++ printMembers members))

def printItems : List Json → List Char
  | [] => [']']
  | item :: items => ',' :: (print item ++ printItems items)

def printMembers : List (Option String × Json) → List Char
  | [] => ['\x7d']
  | (key, value) :: members =>
      ',' :: (printString key ++ ':' :: (print value ++ printMembers members))

end

def isBlank (char : Char) : Bool :=
  char == ' ' || char == '\t' || char == '\n' || char == '\r'

def skipBlank (text : List Char) : List Char := text.dropWhile isBlank

def hexValue? (char : Char) : Option Nat :=
  let code := char.toNat
  if 48 ≤ code ∧ code ≤ 57 then some (code - 48)
  else if 65 ≤ code ∧ code ≤ 70 then some (code - 55)
  else if 97 ≤ code ∧ code ≤ 102 then some (code - 87)
  else none

def unit? (first second third fourth : Char) : Option Nat := do
  let first ← hexValue? first
  let second ← hexValue? second
  let third ← hexValue? third
  let fourth ← hexValue? fourth
  return ((first * 16 + second) * 16 + third) * 16 + fourth

def isHighSurrogate (unit : Nat) : Bool := 0xD800 ≤ unit && unit < 0xDC00

def isLowSurrogate (unit : Nat) : Bool := 0xDC00 ≤ unit && unit < 0xE000

def ofSurrogates (high low : Nat) : Char :=
  Char.ofNat (0x10000 + (high - 0xD800) * 0x400 + (low - 0xDC00))

def escaped? (char : Char) : Option Char :=
  if char = '"' ∨ char = '\\' ∨ char = '/' then some char
  else if char = 'b' then some '\x08'
  else if char = 'f' then some '\x0c'
  else if char = 'n' then some '\n'
  else if char = 'r' then some '\r'
  else if char = 't' then some '\t'
  else none

/-- Puts a character, or the lack of one, in front of what the rest of a literal reads as. -/
def prepend (char : Option Char) (read : Option (Option (List Char) × List Char)) :
    Option (Option (List Char) × List Char) :=
  read.map fun (text, rest) => (char.bind fun char => text.map (char :: ·), rest)

/-- A character that stands behind a high surrogate leaves that surrogate without its pair. -/
def unpaired (pending : Option Nat) (char : Char) : Option Char :=
  if pending.isNone then some char else none

/-- The rest of a string literal, after its opening quote, and what follows it. `pending` is the
high surrogate that was read last. -/
def readString : (pending : Option Nat) → List Char → Option (Option (List Char) × List Char)
  | _, [] => none
  | pending, '"' :: rest => some (if pending.isNone then some [] else none, rest)
  | pending, '\\' :: 'u' :: first :: second :: third :: fourth :: rest =>
      match unit? first second third fourth with
      | none => none
      | some unit =>
          if isHighSurrogate unit then
            if pending.isNone then readString (some unit) rest
            else prepend none (readString none rest)
          else if isLowSurrogate unit then
            prepend (pending.map (ofSurrogates · unit)) (readString none rest)
          else prepend (unpaired pending (Char.ofNat unit)) (readString none rest)
  | pending, '\\' :: char :: rest =>
      match escaped? char with
      | none => none
      | some char => prepend (unpaired pending char) (readString none rest)
  | pending, char :: rest =>
      if char = '\\' ∨ char.toNat < 0x20 then none
      else prepend (unpaired pending char) (readString none rest)

def readDigits (text : List Char) : Option (List Char × List Char) :=
  match text.takeWhile Char.isDigit with
  | [] => none
  | digits => some (digits, text.dropWhile Char.isDigit)

def readWhole (text : List Char) : Option (List Char × List Char) :=
  match readDigits text with
  | some ('0' :: _ :: _, _) => none
  | read => read

def readFraction : List Char → Option (List Char × List Char)
  | '.' :: rest => (readDigits rest).map fun (digits, rest) => ('.' :: digits, rest)
  | rest => some ([], rest)

def readExponent : List Char → Option (List Char × List Char)
  | mark :: rest =>
      if mark = 'e' ∨ mark = 'E' then
        let (sign, rest) :=
          match rest with
          | '+' :: rest => (['+'], rest)
          | '-' :: rest => (['-'], rest)
          | rest => ([], rest)
        (readDigits rest).map fun (digits, rest) => (mark :: (sign ++ digits), rest)
      else some ([], mark :: rest)
  | [] => some ([], [])

def readNumber (text : List Char) : Option (Json × List Char) := do
  let (sign, rest) :=
    match text with
    | '-' :: rest => (['-'], rest)
    | rest => ([], rest)
  let (whole, rest) ← readWhole rest
  let (fraction, rest) ← readFraction rest
  let (exponent, rest) ← readExponent rest
  return (.number (String.ofList (sign ++ whole ++ fraction ++ exponent)), rest)

def readKey (text : List Char) : Option (Option String × List Char) :=
  match skipBlank text with
  | '"' :: rest => do
      let (key, rest) ← readString none rest
      match skipBlank rest with
      | ':' :: rest => some (key.map String.ofList, rest)
      | _ => none
  | _ => none

mutual

/-- Reads one value. Each bracket and each item takes one of the steps that are left. -/
def readValue : Nat → List Char → Option (Json × List Char)
  | 0, _ => none
  | steps + 1, text =>
      match skipBlank text with
      | '"' :: rest => do
          let (text, rest) ← readString none rest
          return (.string (text.map String.ofList), rest)
      | '[' :: rest =>
          match skipBlank rest with
          | ']' :: rest => some (.array [], rest)
          | rest => do
              let (items, rest) ← readItems steps rest
              return (.array items, rest)
      | '\x7b' :: rest =>
          match skipBlank rest with
          | '\x7d' :: rest => some (.object [], rest)
          | rest => do
              let (members, rest) ← readMembers steps rest
              return (.object members, rest)
      | 'n' :: 'u' :: 'l' :: 'l' :: rest => some (.null, rest)
      | 't' :: 'r' :: 'u' :: 'e' :: rest => some (.bool true, rest)
      | 'f' :: 'a' :: 'l' :: 's' :: 'e' :: rest => some (.bool false, rest)
      | rest => readNumber rest

def readItems : Nat → List Char → Option (List Json × List Char)
  | 0, _ => none
  | steps + 1, text => do
      let (item, rest) ← readValue steps text
      match skipBlank rest with
      | ',' :: rest =>
          let (items, rest) ← readItems steps rest
          return (item :: items, rest)
      | ']' :: rest => return ([item], rest)
      | _ => none

def readMembers : Nat → List Char → Option (List (Option String × Json) × List Char)
  | 0, _ => none
  | steps + 1, text => do
      let (key, rest) ← readKey text
      let (value, rest) ← readValue steps rest
      match skipBlank rest with
      | ',' :: rest =>
          let (members, rest) ← readMembers steps rest
          return ((key, value) :: members, rest)
      | '\x7d' :: rest => return ([(key, value)], rest)
      | _ => none

end

/-- A text that holds one value and blanks around it. Two steps for each character are enough. -/
def parse (text : String) : Option Json :=
  let chars := text.toList
  match readValue (2 * chars.length + 2) chars with
  | some (value, rest) => if skipBlank rest = [] then some value else none
  | none => none

end MapChain.Json
