import MapChain.Proofs.Text.Searching
import MapChain.Reference.Comment

/-!
Finding the reference of a text. Main statement: the URL in a comment that stands at the end is
found, whatever references the text before it holds, as long as the URL itself is no trap for the
reader: it has no blanks, holds no marker and does not end like a block comment.
-/

set_option autoImplicit false

namespace MapChain.Reference

variable {front rest chars : List Char} {blank : Char} {target : Path} {url : String}

/-- A marker does not begin inside a marker, so only another whole one is a later one. -/
theorem after_last_marker (front : List Char) (unmarked : ¬marker <:+: rest) :
    Search.afterLast? marker (front ++ marker ++ rest) = some rest := by
  apply Search.after_last_append
  intro inside
  exact unmarked (Search.infix_of_infix_append (by decide) inside)

/-- What a reference may say so that the reader finds just that. -/
structure IsLegible (url : List Char) : Prop where
  filled : url ≠ []
  visible : ∀ char ∈ url, Blank.isBlank char = false
  unmarked : ¬marker <:+: url
  unclosed : ¬['*', '/'] <:+ url

theorem blank_not_mem_marker (isBlank : Blank.isBlank blank = true) : blank ∉ marker := by
  intro member
  have visible : marker.all (!Blank.isBlank ·) = true := by decide
  have shown := List.all_eq_true.1 visible blank member
  rw [isBlank] at shown
  cases shown

theorem unmarked_over_blank (isBlank : Blank.isBlank blank = true) (before : ¬marker <:+: front)
    (behind : ¬marker <:+: rest) : ¬marker <:+: front ++ blank :: rest := by
  intro inside
  rcases Search.infix_or_infix_of_append (blank_not_mem_marker isBlank) inside with early | late
  · exact before early
  · exact behind late

theorem find_url_of_legible {content : String}
    (written : content.toList = front ++ marker ++ (chars ++ blank :: rest))
    (legible : IsLegible chars) (isBlank : Blank.isBlank blank = true)
    (unmarked : ¬marker <:+: rest) : findUrl? content = some (String.ofList chars) := by
  have last : ¬marker <:+: chars ++ blank :: rest :=
    unmarked_over_blank isBlank legible.unmarked unmarked
  have word : (chars ++ blank :: rest).takeWhile (!Blank.isBlank ·) = chars := by
    rw [List.takeWhile_append_of_pos, List.takeWhile_cons_of_neg, List.append_nil]
    · simp [isBlank]
    · intro char member
      simp [legible.visible char member]
  have unended : Search.after? ['/', '*'] chars.reverse = none := by
    rw [Search.after_eq_none_iff]
    intro closed
    exact legible.unclosed (List.reverse_prefix.1 closed)
  rw [findUrl?, written, after_last_marker front last]
  dsimp only
  rw [word, unended]
  exact if_neg legible.filled

theorem find_url_eq_none {content : String} (unmarked : ¬marker <:+: content.toList) :
    findUrl? content = none := by
  rw [findUrl?, Search.after_last_eq_none_iff.2 unmarked]

/-- A URL that is found begins behind the last marker, so it holds none. -/
theorem unmarked_of_find_url {content : String} (found : findUrl? content = some url) :
    ¬marker <:+: url.toList := by
  unfold findUrl? at found
  cases last : Search.afterLast? marker content.toList with
  | none =>
      rw [last] at found
      cases found
  | some rest =>
      rw [last] at found
      dsimp only at found
      have apart : ¬marker <:+: rest := Search.not_infix_of_after_last last
      have early : rest.takeWhile (!Blank.isBlank ·) <+: rest := List.takeWhile_prefix _
      generalize rest.takeWhile (!Blank.isBlank ·) = word at found early
      rw [Option.ite_none_left_eq_some, Option.some.injEq] at found
      rw [← found.2, String.toList_ofList]
      intro inside
      apply apart
      cases closed : Search.after? ['/', '*'] word.reverse with
      | none =>
          rw [closed] at inside
          exact inside.trans early.isInfix
      | some shorter =>
          rw [closed] at inside
          have whole : word.reverse = ['/', '*'] ++ shorter := Search.eq_append_of_after closed
          have kept : shorter.reverse <+: word := by
            rw [← List.reverse_suffix, List.reverse_reverse, whole]
            exact List.suffix_append _ _
          exact inside.trans (kept.trans early).isInfix

theorem find_url_comment (text : String) (target : Path)
    (legible : IsLegible (encodeUrl url).toList) :
    findUrl? (text ++ comment target url) = some (encodeUrl url) := by
  unfold comment
  split
  next =>
    have opening : "\n/*# sourceMappingURL=".toList = "\n/*# ".toList ++ marker := by decide
    have closing : " */\n".toList = ' ' :: "*/\n".toList := by decide
    have written : (text ++ ("\n/*# sourceMappingURL=" ++ encodeUrl url ++ " */\n")).toList =
        (text.toList ++ "\n/*# ".toList) ++ marker ++
          ((encodeUrl url).toList ++ ' ' :: "*/\n".toList) := by
      simp only [String.toList_append, opening, closing, List.append_assoc]
    have unmarked : ¬marker <:+: "*/\n".toList := by decide
    rw [find_url_of_legible written legible rfl unmarked, String.ofList_toList]
  next =>
    have opening : "\n//# sourceMappingURL=".toList = "\n//# ".toList ++ marker := by decide
    have closing : "\n".toList = ['\n'] := by decide
    have written : (text ++ ("\n//# sourceMappingURL=" ++ encodeUrl url ++ "\n")).toList =
        (text.toList ++ "\n//# ".toList) ++ marker ++ ((encodeUrl url).toList ++ ['\n']) := by
      simp only [String.toList_append, opening, closing, List.append_assoc]
    have unmarked : ¬marker <:+: [] := by decide
    rw [find_url_of_legible written legible rfl unmarked, String.ofList_toList]

end MapChain.Reference
