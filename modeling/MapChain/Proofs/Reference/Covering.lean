import MapChain.Proofs.Text.Searching
import MapChain.Reference.Comment
import Mathlib.Data.List.TakeWhile

/-!
What the patterns of a reference cover. A pattern is tried at every place of a text and covers all
that follows that place, blanks at the end included. Main statements: a text is covered just where
it is a line reference or a block reference with blanks behind it.
-/

set_option autoImplicit false

namespace MapChain.Reference

variable {wanted : List Char → Bool} {text before shorter gap url blanks : List Char}

theorem before_first_split (found : beforeFirst? wanted text = some before) :
    ∃ rest, text = before ++ rest ∧ wanted rest = true := by
  induction text generalizing before with
  | nil =>
      rw [beforeFirst?] at found
      split at found
      next here =>
        cases found
        exact ⟨[], rfl, here⟩
      next => cases found
  | cons char text induction =>
      rw [beforeFirst?] at found
      split at found
      next here =>
        cases found
        exact ⟨char :: text, rfl, here⟩
      next =>
        obtain ⟨inner, later, rfl⟩ := Option.map_eq_some_iff.1 found
        obtain ⟨rest, same, here⟩ := induction later
        exact ⟨rest, congrArg (char :: ·) same, here⟩

theorem before_first_eq_none_iff :
    beforeFirst? wanted text = none ↔ ∀ rest, rest <:+ text → wanted rest = false := by
  induction text with
  | nil => simp [beforeFirst?]
  | cons char text induction =>
      rw [beforeFirst?]
      by_cases here : wanted (char :: text) = true
      · rw [if_pos here]
        refine iff_of_false (Option.some_ne_none _) fun missed => ?_
        rw [missed _ List.suffix_rfl] at here
        cases here
      · have missed : wanted (char :: text) = false := Bool.eq_false_iff.2 here
        simp [missed, induction, List.suffix_cons_iff]

/-- The first place is where the rest is as wanted and no more of the text before it is. -/
theorem before_first_append {front rest : List Char} (here : wanted rest = true)
    (missed : ∀ part, part ≠ [] → part <:+ front → wanted (part ++ rest) = false) :
    beforeFirst? wanted (front ++ rest) = some front := by
  induction front with
  | nil => cases rest <;> simp [beforeFirst?, here]
  | cons char front induction =>
      have early := missed (char :: front) (List.cons_ne_nil _ _) List.suffix_rfl
      have later := induction fun part filled behind =>
        missed part filled (behind.trans (List.suffix_cons char front))
      rw [List.cons_append] at early ⊢
      rw [beforeFirst?, early, later]
      rfl

theorem trailing_split (dropped : Char → Bool) (text : List Char) :
    ∃ rear, text = (text.reverse.dropWhile dropped).reverse ++ rear ∧
      ∀ char ∈ rear, dropped char = true := by
  refine ⟨(text.reverse.takeWhile dropped).reverse, ?_, ?_⟩
  · rw [← List.reverse_append, List.takeWhile_append_dropWhile, List.reverse_reverse]
  · intro char member
    exact List.mem_takeWhile_imp (List.mem_reverse.1 member)

theorem cut_split (found : cut? wanted text = some shorter) :
    ∃ feeds rest, text = shorter ++ feeds ++ rest ∧ (∀ char ∈ feeds, char = '\n') ∧
      wanted rest = true := by
  obtain ⟨before, first, rfl⟩ := Option.map_eq_some_iff.1 found
  obtain ⟨rest, whole, here⟩ := before_first_split first
  obtain ⟨feeds, split, only⟩ := trailing_split (· = '\n') before
  refine ⟨feeds, rest, ?_, fun char member => of_decide_eq_true (only char member), here⟩
  rw [dropLineFeeds, ← split, whole]

theorem cut_eq_none_iff :
    cut? wanted text = none ↔ ∀ rest, rest <:+ text → wanted rest = false := by
  rw [cut?, Option.map_eq_none_iff, before_first_eq_none_iff]

theorem after_skip_eq_some_iff :
    Search.after? marker (Blank.skip text) = some url ↔
      ∃ gap, text = gap ++ marker ++ url ∧ ∀ char ∈ gap, Blank.isBlank char = true := by
  constructor
  · intro found
    refine ⟨text.takeWhile Blank.isBlank, ?_, fun char member => List.mem_takeWhile_imp member⟩
    rw [List.append_assoc, ← Search.eq_append_of_after found, Blank.skip,
      List.takeWhile_append_dropWhile]
  · rintro ⟨gap, rfl, blank⟩
    have shown : Blank.skip (marker ++ url) = marker ++ url := rfl
    rw [Blank.skip, List.append_assoc, List.dropWhile_append_of_pos blank]
    exact (congrArg _ shown).trans (Search.after_append marker url)

/-- What is taken for a reference in a line comment. -/
inductive LineReference : List Char → Prop where
  | mk {mark : Char} {gap url : List Char} (marked : mark = '#' ∨ mark = '@')
      (blank : ∀ char ∈ gap, Blank.isBlank char = true) (filled : url ≠ [])
      (single : '\n' ∉ url) : LineReference ('/' :: '/' :: mark :: (gap ++ marker ++ url))

/-- What is taken for a reference in a block comment. -/
inductive BlockReference : List Char → Prop where
  | mk {mark gap url : List Char} {last : Char} (marked : mark = [] ∨ mark = ['#'])
      (blank : ∀ char ∈ gap, Blank.isBlank char = true) (filled : url ≠ [])
      (unquoted : ∀ char ∈ url, char ≠ '\'' ∧ char ≠ '"') (spaced : Blank.isBlank last = true) :
      BlockReference ('/' :: '*' :: (mark ++ gap ++ marker ++ url ++ [last] ++ ['*', '/']))

theorem is_line_reference_iff :
    isLineReference text = true ↔ ∃ comment blanks, text = comment ++ blanks ∧
      LineReference comment ∧ ∀ char ∈ blanks, Blank.isBlank char = true := by
  constructor
  · intro here
    unfold isLineReference at here
    split at here
    next mark rest =>
      rw [Bool.and_eq_true, Bool.or_eq_true, beq_iff_eq, beq_iff_eq] at here
      obtain ⟨marked, read⟩ := here
      obtain ⟨url, found, shape⟩ := (Option.any_eq_true _ _).1 read
      obtain ⟨gap, rfl, blank⟩ := after_skip_eq_some_iff.1 found
      rw [Bool.and_eq_true, decide_eq_true_iff] at shape
      obtain ⟨filled, rear⟩ := shape
      refine ⟨'/' :: '/' :: mark :: (gap ++ marker ++ url.takeWhile (· ≠ '\n')),
        url.dropWhile (· ≠ '\n'), ?_, .mk marked blank filled ?_, ?_⟩
      · simp [List.takeWhile_append_dropWhile]
      · intro member
        simpa using List.mem_takeWhile_imp member
      · exact List.all_eq_true.1 rear
    next => cases here
  · rintro ⟨comment, blanks, rfl, ⟨marked, blank, filled, single⟩, rear⟩
    next mark gap url =>
      have found : Search.after? marker (Blank.skip (gap ++ marker ++ url ++ blanks)) =
          some (url ++ blanks) :=
        after_skip_eq_some_iff.2 ⟨gap, by simp only [List.append_assoc], blank⟩
      have inside : ∀ char ∈ url, decide (char ≠ '\n') = true := by
        intro char member
        exact decide_eq_true fun feed => single (feed ▸ member)
      have after : ∀ char ∈ blanks.dropWhile (· ≠ '\n'), Blank.isBlank char = true :=
        fun char member => rear char ((List.dropWhile_sublist _).subset member)
      have whole : isLineReference ('/' :: '/' :: mark :: (gap ++ marker ++ url ++ blanks)) =
          ((mark == '#' || mark == '@') &&
            (Search.after? marker (Blank.skip (gap ++ marker ++ url ++ blanks))).any fun url =>
              url.takeWhile (· ≠ '\n') ≠ [] &&
                Blank.isAllBlank (url.dropWhile (· ≠ '\n'))) := rfl
      rw [List.cons_append, List.cons_append, List.cons_append, whole, found, Option.any_some,
        List.takeWhile_append_of_pos inside, List.dropWhile_append_of_pos inside]
      rw [Bool.and_eq_true, Bool.or_eq_true, beq_iff_eq, beq_iff_eq, Bool.and_eq_true,
        decide_eq_true_iff]
      exact ⟨marked, by simp [filled], List.all_eq_true.2 after⟩

theorem block_inside_eq_some_iff {inside : List Char} :
    blockInside? text = some inside ↔
      ∃ mark, text = '/' :: '*' :: (mark ++ inside) ∧
        (mark = ['#'] ∨ mark = [] ∧ inside.head? ≠ some '#') := by
  constructor
  · intro here
    unfold blockInside? at here
    split at here
    next =>
      cases here
      exact ⟨['#'], rfl, Or.inl rfl⟩
    next rest unmarked =>
      cases here
      refine ⟨[], rfl, Or.inr ⟨rfl, fun first => ?_⟩⟩
      obtain ⟨rest, rfl⟩ := List.head?_eq_some_iff.1 first
      exact unmarked rest rfl
    next => cases here
  · rintro ⟨mark, rfl, rfl | ⟨rfl, unmarked⟩⟩
    · rfl
    · unfold blockInside?
      split
      next shape =>
        cases shape
        exact absurd rfl unmarked
      next shape =>
        cases shape
        rfl
      next other =>
        exact absurd rfl (other _)

theorem is_block_tail_iff :
    isBlockTail text = true ↔ ∃ url last, text = '/' :: '*' :: last :: url ∧
      Blank.isBlank last = true ∧ url ≠ [] ∧ ∀ char ∈ url, char ≠ '\'' ∧ char ≠ '"' := by
  constructor
  · intro here
    unfold isBlockTail at here
    split at here
    next last url =>
      simp only [Bool.and_eq_true, decide_eq_true_iff, List.all_eq_true] at here
      exact ⟨url, last, rfl, here.1.1, here.1.2, here.2⟩
    next => cases here
  · rintro ⟨url, last, rfl, spaced, filled, unquoted⟩
    simpa [isBlockTail, spaced, filled] using unquoted

theorem head_ne_mark (blank : ∀ char ∈ gap, Blank.isBlank char = true) (rest : List Char) :
    (gap ++ marker ++ rest).head? ≠ some '#' := by
  cases gap with
  | nil =>
      intro first
      cases first
  | cons char gap =>
      intro first
      cases first
      exact absurd (blank '#' List.mem_cons_self) (by decide)

theorem drop_behind_closing {body : List Char}
    (blank : ∀ char ∈ blanks, Blank.isBlank char = true) :
    (body ++ ['*', '/'] ++ blanks).reverse.dropWhile Blank.isBlank =
      '/' :: '*' :: body.reverse := by
  have visible : ¬Blank.isBlank '/' = true := by decide
  have turned : (body ++ ['*', '/'] ++ blanks).reverse =
      blanks.reverse ++ '/' :: '*' :: body.reverse := by simp
  have behind : ∀ char ∈ blanks.reverse, Blank.isBlank char = true :=
    fun char member => blank char (List.mem_reverse.1 member)
  rw [turned, List.dropWhile_append_of_pos behind, List.dropWhile_cons_of_neg visible]

/-- From its closing on, a block comment is read backwards. -/
theorem is_block_reference_closed {mark body : List Char} (marked : mark = [] ∨ mark = ['#'])
    (blank : ∀ char ∈ gap, Blank.isBlank char = true)
    (rear : ∀ char ∈ blanks, Blank.isBlank char = true) :
    isBlockReference ('/' :: '*' :: (mark ++ gap ++ marker ++ body ++ ['*', '/']) ++ blanks) =
      isBlockTail ('/' :: '*' :: body.reverse) := by
  have opened : blockInside?
      ('/' :: '*' :: (mark ++ gap ++ marker ++ body ++ ['*', '/']) ++ blanks) =
      some (gap ++ marker ++ (body ++ ['*', '/'] ++ blanks)) := by
    rw [block_inside_eq_some_iff]
    refine ⟨mark, by simp only [List.cons_append, List.append_assoc], ?_⟩
    rcases marked with bare | marked
    · exact Or.inr ⟨bare, head_ne_mark blank _⟩
    · exact Or.inl marked
  have found : Search.after? marker
      (Blank.skip (gap ++ marker ++ (body ++ ['*', '/'] ++ blanks))) =
      some (body ++ ['*', '/'] ++ blanks) :=
    after_skip_eq_some_iff.2 ⟨gap, rfl, blank⟩
  unfold isBlockReference
  rw [opened]
  dsimp only
  rw [found, Option.any_some, drop_behind_closing rear]

theorem is_block_reference_iff :
    isBlockReference text = true ↔ ∃ comment blanks, text = comment ++ blanks ∧
      BlockReference comment ∧ ∀ char ∈ blanks, Blank.isBlank char = true := by
  constructor
  · intro here
    unfold isBlockReference at here
    split at here
    next => cases here
    next inside opened =>
      obtain ⟨tail, found, ends⟩ := (Option.any_eq_true _ _).1 here
      obtain ⟨mark, rfl, marked⟩ := block_inside_eq_some_iff.1 opened
      obtain ⟨gap, rfl, blank⟩ := after_skip_eq_some_iff.1 found
      obtain ⟨url, last, shape, spaced, filled, unquoted⟩ := is_block_tail_iff.1 ends
      obtain ⟨blanks, whole, rear⟩ := trailing_split Blank.isBlank tail
      rw [shape] at whole
      have marks : mark = [] ∨ mark = ['#'] := by
        rcases marked with marked | ⟨bare, -⟩
        · exact Or.inr marked
        · exact Or.inl bare
      refine ⟨'/' :: '*' :: (mark ++ gap ++ marker ++ url.reverse ++ [last] ++ ['*', '/']), blanks,
        ?_, .mk marks blank (by simpa using filled) ?_ spaced, rear⟩
      · rw [whole]
        simp
      · intro char member
        exact unquoted char (List.mem_reverse.1 member)
  · rintro ⟨comment, blanks, rfl, ⟨marked, blank, filled, unquoted, spaced⟩, rear⟩
    next mark gap url last =>
      rw [List.append_assoc _ url, is_block_reference_closed marked blank rear, List.reverse_append,
        is_block_tail_iff]
      exact ⟨url.reverse, last, rfl, spaced, by simpa using filled,
        fun char member => unquoted char (List.mem_reverse.1 member)⟩

end MapChain.Reference
