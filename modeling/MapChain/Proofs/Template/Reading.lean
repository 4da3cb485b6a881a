import MapChain.Path.Resolve
import MapChain.Proofs.Text.Replacing

/-!
Templates read once, from the left. Reading tells the placeholders of a template from its literal
characters. Main statements: reading finds every placeholder that stands in a template, and
replacing one kind of placeholder in a text fills in those that were read, if no more of them stand
there.
-/

set_option autoImplicit false

namespace MapChain.Template

inductive Hole where
  | absolute
  | relative
  | base
  deriving DecidableEq, Repr

def Hole.word : Hole → List Char
  | .absolute => absolutePlaceholder.toList
  | .relative => relativePlaceholder.toList
  | .base => basePlaceholder.toList

inductive Token where
  | literal (char : Char)
  | slot (hole : Hole)
  deriving DecidableEq, Repr

def hole? (text : List Char) : Option Hole :=
  [.absolute, .relative, .base].find? fun hole => hole.word.isPrefixOf text

/-- Reads a template from the left. `skipped` counts the characters of a placeholder that are still
to be passed over. -/
def readFrom : Nat → List Char → List Token
  | _, [] => []
  | skipped + 1, _ :: text => readFrom skipped text
  | 0, char :: text =>
      match hole? (char :: text) with
      | some hole => .slot hole :: readFrom (hole.word.length - 1) text
      | none => .literal char :: readFrom 0 text

def read (template : List Char) : List Token := readFrom 0 template

def Token.spell (meaning : Hole → List Char) : Token → List Char
  | .literal char => [char]
  | .slot hole => meaning hole

def spell (meaning : Hole → List Char) (tokens : List Token) : List Char :=
  tokens.flatMap (Token.spell meaning)

def fill (hole : Hole) (text : List Char) (tokens : List Token) : List Token :=
  tokens.flatMap fun token => if token = .slot hole then text.map .literal else [token]

/-- Some words that were read character by character are taken for placeholders of one kind. -/
inductive Notes (hole : Hole) : List Token → List Token → Prop where
  | nil : Notes hole [] []
  | keep (token : Token) {tokens noted : List Token} (rest : Notes hole tokens noted) :
      Notes hole (token :: tokens) (token :: noted)
  | note {tokens noted : List Token} (rest : Notes hole tokens noted) :
      Notes hole (hole.word.map .literal ++ tokens) (.slot hole :: noted)

variable {hole other : Hole} {meaning : Hole → List Char} {char : Char}
  {text word front back template : List Char} {token : Token} {tokens noted : List Token}

theorem Hole.word_eq (hole : Hole) : ∃ inner, hole.word = '[' :: inner ∧ '[' ∉ inner := by
  cases hole with
  | absolute => exact ⟨"absolute-path]".toList, by decide, by decide⟩
  | relative => exact ⟨"relative-path]".toList, by decide, by decide⟩
  | base => exact ⟨"base-path]".toList, by decide, by decide⟩

theorem hole_unique (first : hole.word <+: text) (second : other.word <+: text) : hole = other := by
  have alone : ∀ hole other : Hole, hole.word <+: other.word → hole = other := by
    intro hole other
    cases hole <;> cases other <;> decide
  rcases List.prefix_or_prefix_of_prefix first second with short | long
  · exact alone hole other short
  · exact (alone other hole long).symm

theorem prefix_of_hole (found : hole? text = some hole) : hole.word <+: text := by
  have begins := List.find?_some found
  exact List.isPrefixOf_iff_prefix.1 begins

theorem hole_eq_none_iff : hole? text = none ↔ ∀ hole : Hole, ¬hole.word <+: text := by
  rw [hole?, List.find?_eq_none]
  constructor
  · intro missing hole here
    apply missing hole
    · cases hole <;> simp
    · exact List.isPrefixOf_iff_prefix.2 here
  · intro missing hole _ here
    exact missing hole (List.isPrefixOf_iff_prefix.1 here)

theorem hole_eq_some (here : hole.word <+: text) : hole? text = some hole := by
  cases found : hole? text with
  | none => exact absurd here (hole_eq_none_iff.1 found hole)
  | some other => rw [hole_unique (prefix_of_hole found) here]

theorem spell_cons (meaning : Hole → List Char) (token : Token) (tokens : List Token) :
    spell meaning (token :: tokens) = token.spell meaning ++ spell meaning tokens := rfl

theorem spell_append (meaning : Hole → List Char) (tokens rest : List Token) :
    spell meaning (tokens ++ rest) = spell meaning tokens ++ spell meaning rest :=
  List.flatMap_append

theorem spell_literals (meaning : Hole → List Char) (text : List Char) :
    spell meaning (text.map .literal) = text := by
  induction text with
  | nil => rfl
  | cons char text induction =>
      rw [List.map_cons, spell_cons, induction, Token.spell, List.singleton_append]

theorem count_literals (hole : Hole) (text : List Char) :
    (text.map Token.literal).count (.slot hole) = 0 := by
  rw [List.count_eq_zero]
  simp

theorem slot_ne (different : other ≠ hole) : Token.slot other ≠ .slot hole := by
  simpa using different

theorem fill_cons_self (hole : Hole) (text : List Char) (tokens : List Token) :
    fill hole text (.slot hole :: tokens) = text.map .literal ++ fill hole text tokens := by
  rw [fill, List.flatMap_cons, if_pos rfl, fill]

theorem fill_cons (different : token ≠ .slot hole) (text : List Char) (tokens : List Token) :
    fill hole text (token :: tokens) = token :: fill hole text tokens := by
  rw [fill, List.flatMap_cons, if_neg different, fill, List.singleton_append]

theorem spell_update (different : token ≠ .slot hole) (meaning : Hole → List Char)
    (text : List Char) : token.spell (Function.update meaning hole text) = token.spell meaning := by
  cases token with
  | literal char => rfl
  | slot other =>
      have apart : other ≠ hole := fun same => different (congrArg Token.slot same)
      rw [Token.spell, Token.spell, Function.update_of_ne apart]

theorem spell_fill (hole : Hole) (text : List Char) (tokens : List Token) :
    spell meaning (fill hole text tokens) = spell (Function.update meaning hole text) tokens := by
  induction tokens with
  | nil => rfl
  | cons token tokens induction =>
      rw [spell_cons]
      by_cases here : token = .slot hole
      · rw [here, fill_cons_self, spell_append, spell_literals, induction, Token.spell,
          Function.update_self]
      · rw [fill_cons here, spell_cons, induction, spell_update here]

theorem count_fill (different : other ≠ hole) (text : List Char) (tokens : List Token) :
    (fill hole text tokens).count (.slot other) = tokens.count (.slot other) := by
  induction tokens with
  | nil => rfl
  | cons token tokens induction =>
      by_cases here : token = .slot hole
      · rw [here, fill_cons_self, List.count_append, count_literals, induction, Nat.zero_add,
          List.count_cons_of_ne (slot_ne different.symm)]
      · rw [fill_cons here, List.count_cons, List.count_cons, induction]

/-- Each placeholder that is filled in takes its own characters away, and brings those of the
text. -/
theorem countP_fill (kind : Char → Bool) (hole : Hole) (text : List Char) (tokens : List Token) :
    (spell Hole.word (fill hole text tokens)).countP kind +
        tokens.count (.slot hole) * hole.word.countP kind =
      (spell Hole.word tokens).countP kind + tokens.count (.slot hole) * text.countP kind := by
  induction tokens with
  | nil => simp [fill, spell]
  | cons token tokens induction =>
      rw [spell_cons, List.countP_append]
      by_cases here : token = .slot hole
      · rw [here, fill_cons_self, spell_append, spell_literals, List.countP_append,
          List.count_cons_self, Token.spell, Nat.add_mul, Nat.add_mul, Nat.one_mul, Nat.one_mul]
        omega
      · rw [fill_cons here, spell_cons, List.countP_append, List.count_cons_of_ne here]
        omega

/-- What is left of a placeholder that has been read is passed over. -/
theorem read_from_length (passed back : List Char) :
    readFrom passed.length (passed ++ back) = read back := by
  induction passed with
  | nil => rfl
  | cons char passed induction => exact induction

theorem read_hole (hole : Hole) (back : List Char) :
    read (hole.word ++ back) = .slot hole :: read back := by
  obtain ⟨inner, shape, -⟩ := hole.word_eq
  have here : hole? (hole.word ++ back) = some hole := hole_eq_some (List.prefix_append _ back)
  rw [shape, List.cons_append] at here ⊢
  rw [read, readFrom, here]
  dsimp only
  rw [shape, List.length_cons, Nat.add_sub_cancel, read_from_length]

theorem read_char (apart : ∀ hole : Hole, ¬hole.word <+: char :: text) :
    read (char :: text) = .literal char :: read text := by
  rw [read, readFrom, hole_eq_none_iff.2 apart]
  rfl

theorem occurrences_hole_nil (hole : Hole) : Search.occurrences hole.word [] = 0 := by
  obtain ⟨inner, shape, -⟩ := hole.word_eq
  rw [shape, Search.occurrences_nil]

theorem occurrences_hole_append (hole : Hole) (back : List Char) :
    Search.occurrences hole.word (hole.word ++ back) = Search.occurrences hole.word back + 1 := by
  obtain ⟨inner, shape, simple⟩ := hole.word_eq
  rw [shape]
  exact Search.occurrences_word_append simple

theorem occurrences_other_append (different : other ≠ hole) (back : List Char) :
    Search.occurrences hole.word (other.word ++ back) = Search.occurrences hole.word back := by
  have apart : ¬hole.word <+: other.word ++ back := fun here =>
    different (hole_unique (List.prefix_append _ back) here)
  obtain ⟨inner, shape, simple⟩ := other.word_eq
  obtain ⟨word, own, -⟩ := hole.word_eq
  rw [shape, List.cons_append] at apart ⊢
  rw [Search.occurrences_cons_of_not_prefix apart, own, Search.occurrences_append simple]

/-- Reading a template loses nothing of it, and finds every placeholder. -/
theorem read_complete (template : List Char) :
    spell Hole.word (read template) = template ∧
      ∀ hole : Hole, (read template).count (.slot hole) =
        Search.occurrences hole.word template := by
  -- The induction is on the length, since reading goes on behind a whole placeholder.
  induction size : template.length using Nat.strong_induction_on generalizing template with
  | _ total induction =>
      cases template with
      | nil => exact ⟨rfl, fun hole => (occurrences_hole_nil hole).symm⟩
      | cons char text =>
          cases found : hole? (char :: text) with
          | none =>
              have apart := hole_eq_none_iff.1 found
              obtain ⟨whole, counts⟩ := induction text.length (by simp [← size]) text rfl
              rw [read_char apart]
              refine ⟨?_, fun hole => ?_⟩
              · rw [spell_cons, whole, Token.spell, List.singleton_append]
              · rw [Search.occurrences_cons_of_not_prefix (apart hole), ← counts hole]
                exact List.count_cons_of_ne (by simp)
          | some other =>
              obtain ⟨back, split⟩ := prefix_of_hole found
              obtain ⟨inner, shape, -⟩ := other.word_eq
              have shorter : back.length < total := by
                rw [← size, ← split, shape, List.length_append, List.length_cons]
                omega
              obtain ⟨whole, counts⟩ := induction back.length shorter back rfl
              rw [← split, read_hole]
              refine ⟨?_, fun hole => ?_⟩
              · rw [spell_cons, whole, Token.spell]
              · by_cases same : other = hole
                · rw [same, occurrences_hole_append, List.count_cons_self, counts]
                · rw [occurrences_other_append same, List.count_cons_of_ne (slot_ne same), counts]

theorem Notes.spell_eq (notes : Notes hole tokens noted) :
    spell Hole.word noted = spell Hole.word tokens := by
  induction notes with
  | nil => rfl
  | keep token rest induction => rw [spell_cons, spell_cons, induction]
  | note rest induction => rw [spell_append, spell_literals, spell_cons, induction, Token.spell]

theorem Notes.count_other (notes : Notes hole tokens noted) (different : other ≠ hole) :
    noted.count (.slot other) = tokens.count (.slot other) := by
  induction notes with
  | nil => rfl
  | keep token rest induction => rw [List.count_cons, List.count_cons, induction]
  | note rest induction =>
      rw [List.count_cons_of_ne (slot_ne different.symm), List.count_append, count_literals,
        Nat.zero_add, induction]

theorem Notes.count_le (notes : Notes hole tokens noted) :
    tokens.count (.slot hole) ≤ noted.count (.slot hole) := by
  induction notes with
  | nil => exact Nat.le_refl 0
  | keep token rest induction =>
      rw [List.count_cons, List.count_cons]
      exact Nat.add_le_add_right induction _
  | note rest induction =>
      rw [List.count_append, count_literals, List.count_cons_self]
      omega

theorem Notes.eq_of_count (notes : Notes hole tokens noted)
    (few : noted.count (.slot hole) ≤ tokens.count (.slot hole)) : noted = tokens := by
  induction notes with
  | nil => rfl
  | keep token rest induction =>
      rw [List.count_cons, List.count_cons] at few
      rw [induction (Nat.le_of_add_le_add_right few)]
  | note rest induction =>
      have bound := rest.count_le
      rw [List.count_append, count_literals, List.count_cons_self] at few
      omega

theorem literals_of_prefix (simple : '[' ∉ word) (here : word <+: spell Hole.word tokens) :
    ∃ rest, tokens = word.map .literal ++ rest := by
  induction word generalizing tokens with
  | nil => exact ⟨tokens, rfl⟩
  | cons char word induction =>
      rw [List.mem_cons, not_or] at simple
      cases tokens with
      | nil => simp [spell] at here
      | cons token tokens =>
          rw [spell_cons] at here
          cases token with
          | literal own =>
              rw [Token.spell, List.singleton_append, List.cons_prefix_cons] at here
              obtain ⟨rfl, later⟩ := here
              obtain ⟨rest, rfl⟩ := induction simple.2 later
              exact ⟨rest, rfl⟩
          | slot hole =>
              obtain ⟨inner, shape, -⟩ := hole.word_eq
              rw [Token.spell, shape, List.cons_append, List.cons_prefix_cons] at here
              exact absurd here.1.symm simple.1

theorem Notes.of_literals (notes : Notes hole tokens (front.map .literal ++ noted)) :
    ∃ rest, tokens = front.map .literal ++ rest ∧ Notes hole rest noted := by
  induction front generalizing tokens with
  | nil => exact ⟨tokens, rfl, notes⟩
  | cons char front induction =>
      rw [List.map_cons, List.cons_append] at notes
      cases notes with
      | keep token rest =>
          obtain ⟨last, rfl, still⟩ := induction rest
          exact ⟨last, rfl, still⟩

theorem exists_notes (hole : Hole) (tokens : List Token) :
    ∃ noted, Notes hole tokens noted ∧
      noted.count (.slot hole) = Search.occurrences hole.word (spell Hole.word tokens) := by
  induction tokens with
  | nil => exact ⟨[], .nil, (occurrences_hole_nil hole).symm⟩
  | cons token tokens induction =>
      obtain ⟨noted, notes, counts⟩ := induction
      rw [spell_cons]
      cases token with
      | slot other =>
          refine ⟨.slot other :: noted, .keep _ notes, ?_⟩
          rw [Token.spell]
          by_cases same : other = hole
          · rw [same, List.count_cons_self, occurrences_hole_append, counts]
          · rw [List.count_cons_of_ne (slot_ne same), occurrences_other_append same, counts]
      | literal char =>
          have plain : Token.literal char ≠ Token.slot hole := by simp
          rw [Token.spell, List.singleton_append]
          by_cases here : hole.word <+: char :: spell Hole.word tokens
          · -- The rest of the word holds no bracket, so it has been read character by character.
            obtain ⟨inner, shape, simple⟩ := hole.word_eq
            have tail := here
            rw [shape, List.cons_prefix_cons, ← notes.spell_eq] at tail
            obtain ⟨rfl, later⟩ := tail
            obtain ⟨rest, rfl⟩ := literals_of_prefix simple later
            obtain ⟨last, rfl, still⟩ := notes.of_literals
            have whole : Token.literal '[' :: (inner.map .literal ++ last) =
                hole.word.map .literal ++ last := by
              rw [shape, List.map_cons, List.cons_append]
            refine ⟨.slot hole :: rest, ?_, ?_⟩
            · rw [whole]
              exact .note still
            · rw [List.count_append, count_literals, Nat.zero_add] at counts
              rw [List.count_cons_self, counts, Search.occurrences_cons_of_prefix here]
          · refine ⟨.literal char :: noted, .keep _ notes, ?_⟩
            rw [List.count_cons_of_ne plain, counts, Search.occurrences_cons_of_not_prefix here]

theorem count_le_occurrences (hole : Hole) (tokens : List Token) :
    tokens.count (.slot hole) ≤ Search.occurrences hole.word (spell Hole.word tokens) := by
  obtain ⟨noted, notes, counts⟩ := exists_notes hole tokens
  rw [← counts]
  exact notes.count_le

theorem replace_all_hole_append (hole : Hole) (replacement back : List Char) :
    Search.replaceAll hole.word replacement (hole.word ++ back) =
      replacement ++ Search.replaceAll hole.word replacement back := by
  obtain ⟨inner, shape, -⟩ := hole.word_eq
  rw [shape]
  exact Search.replace_all_word_append

theorem replace_all_other_append (different : other ≠ hole) (replacement back : List Char) :
    Search.replaceAll hole.word replacement (other.word ++ back) =
      other.word ++ Search.replaceAll hole.word replacement back := by
  have apart : ¬hole.word <+: other.word ++ back := fun here =>
    different (hole_unique (List.prefix_append _ back) here)
  obtain ⟨inner, shape, simple⟩ := other.word_eq
  obtain ⟨word, own, -⟩ := hole.word_eq
  rw [shape, List.cons_append] at apart ⊢
  rw [Search.replace_all_cons apart, own, Search.replace_all_append simple, List.cons_append]

/-- Where all placeholders of a kind have been read, replacing them is filling them in. -/
theorem replace_all_eq_fill (replacement : List Char)
    (complete : tokens.count (.slot hole) =
      Search.occurrences hole.word (spell Hole.word tokens)) :
    Search.replaceAll hole.word replacement (spell Hole.word tokens) =
      spell Hole.word (fill hole replacement tokens) := by
  induction tokens with
  | nil => rfl
  | cons token tokens induction =>
      have bound := count_le_occurrences hole tokens
      rw [spell_cons] at complete ⊢
      cases token with
      | slot other =>
          rw [Token.spell] at complete ⊢
          by_cases same : other = hole
          · rw [same, List.count_cons_self, occurrences_hole_append] at complete
            rw [same, replace_all_hole_append, induction (Nat.add_right_cancel complete),
              fill_cons_self, spell_append, spell_literals]
          · rw [List.count_cons_of_ne (slot_ne same), occurrences_other_append same] at complete
            rw [replace_all_other_append same, induction complete, fill_cons (slot_ne same),
              spell_cons, Token.spell]
      | literal char =>
          have plain : Token.literal char ≠ Token.slot hole := by simp
          rw [Token.spell, List.singleton_append, List.count_cons_of_ne plain] at complete
          rw [Token.spell, List.singleton_append]
          by_cases here : hole.word <+: char :: spell Hole.word tokens
          · rw [Search.occurrences_cons_of_prefix here] at complete
            omega
          · rw [Search.occurrences_cons_of_not_prefix here] at complete
            rw [Search.replace_all_cons here, induction complete, fill_cons plain, spell_cons,
              Token.spell, List.singleton_append]

theorem replace_all_notes (hole : Hole) (replacement : List Char) (tokens : List Token) :
    ∃ noted, Notes hole tokens noted ∧
      noted.count (.slot hole) = Search.occurrences hole.word (spell Hole.word tokens) ∧
      Search.replaceAll hole.word replacement (spell Hole.word tokens) =
        spell Hole.word (fill hole replacement noted) := by
  obtain ⟨noted, notes, counts⟩ := exists_notes hole tokens
  refine ⟨noted, notes, counts, ?_⟩
  rw [← notes.spell_eq] at counts ⊢
  exact replace_all_eq_fill replacement counts

end MapChain.Template
