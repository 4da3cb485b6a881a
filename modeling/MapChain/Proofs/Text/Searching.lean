import MapChain.Text.Search

/-!
Words inside texts. Main statements: a word that is found nowhere is no part of the text, what
follows a word is found as long as the word does not begin again, and a word that stands in a text
once has one place there and is the only thing that is replaced.
-/

set_option autoImplicit false

namespace MapChain.Search

variable {word text front back rest replacement : List Char} {first mark : Char}

theorem after_eq_none_iff : after? word text = none ↔ ¬word <+: text := by
  constructor
  · rintro missing ⟨rest, rfl⟩
    rw [after_append] at missing
    cases missing
  · intro apart
    cases found : after? word text with
    | none => rfl
    | some rest => exact absurd ⟨rest, (eq_append_of_after found).symm⟩ apart

theorem after_last_eq_none_iff : afterLast? word text = none ↔ ¬word <:+: text := by
  induction text with
  | nil => rw [afterLast?, after_eq_none_iff, List.infix_nil, List.prefix_nil]
  | cons char text induction =>
      rw [afterLast?, List.infix_cons_iff, not_or, ← induction, ← after_eq_none_iff]
      cases afterLast? word text with
      | none => simp
      | some rest => simp

/-- What follows a word is found as long as the word does not begin again. -/
theorem after_last_append (front : List Char) (apart : ¬first :: word <:+: word ++ rest) :
    afterLast? (first :: word) (front ++ first :: word ++ rest) = some rest := by
  induction front with
  | nil =>
      rw [List.nil_append, List.cons_append, afterLast?, after_last_eq_none_iff.2 apart,
        ← List.cons_append, after_append]
  | cons char front induction =>
      rw [List.append_assoc, List.cons_append, ← List.append_assoc, afterLast?, induction]

theorem not_infix_of_after_last (found : afterLast? (first :: word) text = some rest) :
    ¬first :: word <:+: rest := by
  induction text with
  | nil => cases found
  | cons char text induction =>
      rw [afterLast?] at found
      cases later : afterLast? (first :: word) text with
      | some behind =>
          rw [later] at found
          apply induction
          rw [later]
          exact found
      | none =>
          rw [later] at found
          have whole : char :: text = first :: (word ++ rest) := eq_append_of_after found
          have tail : text = word ++ rest := (List.cons.inj whole).2
          intro again
          apply after_last_eq_none_iff.1 later
          rw [tail]
          exact again.trans (List.suffix_append word rest).isInfix

theorem infix_of_infix_append (absent : first ∉ front)
    (inside : first :: word <:+: front ++ rest) : first :: word <:+: rest := by
  induction front with
  | nil => exact inside
  | cons char front induction =>
      rw [List.mem_cons, not_or] at absent
      rw [List.cons_append, List.infix_cons_iff, List.cons_prefix_cons] at inside
      rcases inside with ⟨same, -⟩ | later
      · exact absurd same absent.1
      · exact induction absent.2 later

theorem prefix_of_prefix_append (absent : mark ∉ word)
    (here : word <+: front ++ mark :: rest) : word <+: front := by
  have cut : front ++ [mark] <+: front ++ mark :: rest := ⟨rest, by simp⟩
  have member : mark ∈ front ++ [mark] := List.mem_append_right front List.mem_cons_self
  rcases List.prefix_or_prefix_of_prefix here cut with short | long
  · rcases List.prefix_concat_iff.1 short with same | within
    · rw [same] at absent
      exact absurd member absent
    · exact within
  · exact absurd (long.subset member) absent

theorem infix_or_infix_of_append (absent : mark ∉ word)
    (inside : word <:+: front ++ mark :: rest) : word <:+: front ∨ word <:+: rest := by
  induction front with
  | nil =>
      rw [List.nil_append, List.infix_cons_iff] at inside
      rcases inside with here | later
      · rw [← List.nil_append (mark :: rest)] at here
        exact Or.inl (prefix_of_prefix_append absent here).isInfix
      · exact Or.inr later
  | cons char front induction =>
      rw [List.cons_append, List.infix_cons_iff] at inside
      rcases inside with here | later
      · rw [← List.cons_append] at here
        exact Or.inl (prefix_of_prefix_append absent here).isInfix
      · rcases induction later with before | behind
        · exact Or.inl (List.infix_cons_iff.2 (Or.inr before))
        · exact Or.inr behind

/-- What is left of a word that has been found is passed over. -/
theorem replace_from_length (passed back : List Char) :
    replaceFrom word replacement passed.length (passed ++ back) =
      replaceFrom word replacement 0 back := by
  induction passed with
  | nil => rfl
  | cons char passed induction =>
      rw [List.length_cons, List.cons_append, replaceFrom]
      exact induction

theorem infix_of_append_infix (absent : mark ∉ back) (inside : word ++ [mark] <:+: text ++ back) :
    word ++ [mark] <:+: text := by
  rw [← List.reverse_infix, List.reverse_append, List.reverse_append, List.reverse_singleton,
    List.singleton_append] at inside
  rw [← List.reverse_infix, List.reverse_append, List.reverse_singleton, List.singleton_append]
  exact infix_of_infix_append (by simpa using absent) inside

theorem append_split_of_not_mem {part : List Char} (absent : mark ∉ part)
    (same : part ++ back = front ++ mark :: rest) :
    ∃ middle, front = part ++ middle ∧ back = middle ++ mark :: rest := by
  obtain ⟨middle, rfl⟩ := prefix_of_prefix_append absent ⟨back, same⟩
  refine ⟨middle, rfl, ?_⟩
  rw [List.append_assoc] at same
  exact List.append_cancel_left same

/-- A word that does not begin within itself stands again only behind itself. -/
theorem next_place (simple : first ∉ word)
    (same : first :: word ++ back = front ++ first :: word ++ rest) :
    (front = [] ∧ back = rest) ∨
      ∃ middle, front = first :: word ++ middle ∧ back = middle ++ first :: word ++ rest := by
  cases front with
  | nil => exact Or.inl ⟨rfl, List.append_cancel_left same⟩
  | cons char front =>
      rw [List.append_assoc, List.cons_append, List.cons_append, List.cons_append,
        List.cons_eq_cons] at same
      obtain ⟨rfl, tail⟩ := same
      obtain ⟨middle, rfl, behind⟩ := append_split_of_not_mem simple tail
      exact Or.inr ⟨middle, rfl, by rw [behind, List.append_assoc, List.cons_append]⟩

/-- A word that stands neither before nor behind one of its places stands only there. -/
theorem place_unique {other : List Char} (simple : first ∉ word)
    (before : ¬first :: word <:+: front) (behind : ¬first :: word <:+: rest)
    (same : other ++ first :: word ++ back = front ++ first :: word ++ rest) :
    other = front ∧ back = rest := by
  rw [List.append_assoc, List.append_assoc] at same
  rcases List.append_eq_append_iff.1 same with ⟨middle, split, tail⟩ | ⟨middle, split, tail⟩
  · rw [← List.append_assoc] at tail
    rcases next_place simple tail with ⟨rfl, ends⟩ | ⟨gap, rfl, -⟩
    · exact ⟨by rw [split, List.append_nil], ends⟩
    · exact absurd ⟨other, gap, by rw [split, List.append_assoc]⟩ before
  · rw [← List.append_assoc] at tail
    rcases next_place simple tail with ⟨rfl, ends⟩ | ⟨gap, -, rfl⟩
    · exact ⟨by rw [split, List.append_nil], ends.symm⟩
    · exact absurd (List.infix_append gap _ back) behind

end MapChain.Search
