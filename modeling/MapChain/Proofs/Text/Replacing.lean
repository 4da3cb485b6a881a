import MapChain.Proofs.Text.Searching
import Mathlib.Data.List.Infix

/-!
How often a word stands in a text, and what becomes of a text part by part when a word is replaced.
Main statement: a word that does not begin within itself is replaced wherever it stands.
-/

set_option autoImplicit false

namespace MapChain.Search

variable {word text front rest replacement : List Char} {first char : Char}

def occurrences (word text : List Char) : Nat := text.tails.countP fun rest => word.isPrefixOf rest

theorem occurrences_nil (first : Char) (word : List Char) :
    occurrences (first :: word) [] = 0 := rfl

theorem occurrences_cons_of_prefix (here : word <+: char :: text) :
    occurrences word (char :: text) = occurrences word text + 1 := by
  rw [occurrences, List.tails_cons, List.countP_cons_of_pos (List.isPrefixOf_iff_prefix.2 here)]
  rfl

theorem occurrences_cons_of_not_prefix (apart : ¬word <+: char :: text) :
    occurrences word (char :: text) = occurrences word text := by
  rw [occurrences, List.tails_cons,
    List.countP_cons_of_neg (fun here => apart (List.isPrefixOf_iff_prefix.1 here))]
  rfl

theorem not_prefix_cons (different : first ≠ char) : ¬first :: word <+: char :: text := by
  rw [List.cons_prefix_cons]
  exact fun ⟨same, _⟩ => different same

theorem occurrences_append (absent : first ∉ front) :
    occurrences (first :: word) (front ++ rest) = occurrences (first :: word) rest := by
  induction front with
  | nil => rfl
  | cons char front induction =>
      rw [List.mem_cons, not_or] at absent
      rw [List.cons_append, occurrences_cons_of_not_prefix (not_prefix_cons absent.1),
        induction absent.2]

theorem occurrences_word_append (simple : first ∉ word) :
    occurrences (first :: word) (first :: word ++ rest) =
      occurrences (first :: word) rest + 1 := by
  have here : first :: word <+: first :: (word ++ rest) := List.prefix_append (first :: word) rest
  rw [List.cons_append, occurrences_cons_of_prefix here, occurrences_append simple]

theorem replace_all_cons (apart : ¬word <+: char :: text) :
    replaceAll word replacement (char :: text) = char :: replaceAll word replacement text := by
  rw [replaceAll, replaceFrom, after_eq_none_iff.2 apart]
  rfl

theorem replace_all_append (absent : first ∉ front) :
    replaceAll (first :: word) replacement (front ++ rest) =
      front ++ replaceAll (first :: word) replacement rest := by
  induction front with
  | nil => rfl
  | cons char front induction =>
      rw [List.mem_cons, not_or] at absent
      rw [List.cons_append, replace_all_cons (not_prefix_cons absent.1), induction absent.2,
        List.cons_append]

theorem replace_all_word_append :
    replaceAll (first :: word) replacement (first :: word ++ rest) =
      replacement ++ replaceAll (first :: word) replacement rest := by
  rw [replaceAll, List.cons_append, replaceFrom, ← List.cons_append, after_append]
  dsimp only
  rw [List.length_cons, Nat.add_sub_cancel, replace_from_length, replaceAll]

end MapChain.Search
