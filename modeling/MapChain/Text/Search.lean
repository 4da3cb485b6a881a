/-!
Looking for one text inside another, replacing it, and trimming by white space in the sense of the
Unicode property `White_Space`. Main statement: a head that is found is cut off exactly, so the text
is that head followed by what is returned.
-/

set_option autoImplicit false

namespace MapChain.Search

def after? : List Char → List Char → Option (List Char)
  | [], text => some text
  | _ :: _, [] => none
  | expected :: head, char :: text => if expected = char then after? head text else none

@[simp]
theorem after_append (head rest : List Char) : after? head (head ++ rest) = some rest := by
  induction head with
  | nil => rfl
  | cons char head induction => simp [after?, induction]

theorem eq_append_of_after {head text rest : List Char} (found : after? head text = some rest) :
    text = head ++ rest := by
  induction head generalizing text with
  | nil => simpa [after?] using found
  | cons expected head induction =>
      cases text with
      | nil => simp [after?] at found
      | cons char text =>
          by_cases same : expected = char
          · simp only [after?, same, if_true] at found
            simp [same, induction found]
          · simp [after?, same] at found

def afterLast? (word : List Char) : List Char → Option (List Char)
  | [] => after? word []
  | char :: text =>
      match afterLast? word text with
      | some rest => some rest
      | none => after? word (char :: text)

/-- Every occurrence of `word`, taken from the left without overlap, becomes `replacement`.
`skipped` counts the characters of an occurrence that are still to be passed over. -/
def replaceFrom (word replacement : List Char) : Nat → List Char → List Char
  | _, [] => []
  | skipped + 1, _ :: text => replaceFrom word replacement skipped text
  | 0, char :: text =>
      match after? word (char :: text) with
      | some _ => replacement ++ replaceFrom word replacement (word.length - 1) text
      | none => char :: replaceFrom word replacement 0 text

def replaceAll (word replacement text : List Char) : List Char :=
  replaceFrom word replacement 0 text

end MapChain.Search

namespace MapChain.Blank

def isBlank (char : Char) : Bool :=
  let code := char.toNat
  (9 ≤ code && code ≤ 13) || code == 0x20 || code == 0x85 || code == 0xA0 || code == 0x1680 ||
    (0x2000 ≤ code && code ≤ 0x200A) || code == 0x2028 || code == 0x2029 || code == 0x202F ||
    code == 0x205F || code == 0x3000

def skip (text : List Char) : List Char := text.dropWhile isBlank

def trimEnd (text : List Char) : List Char := (text.reverse.dropWhile isBlank).reverse

def isAllBlank (text : List Char) : Bool := text.all isBlank

end MapChain.Blank
