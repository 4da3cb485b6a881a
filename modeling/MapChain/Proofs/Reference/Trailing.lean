import MapChain.Proofs.Reference.Finding
import MapChain.Proofs.Reference.Stripping
import Mathlib.Data.List.DropRight

/-!
Comments in the last line of a text. No pattern reaches such a comment from a place before its line:
what stands between would have to be blank. Main statements: a line comment is cut off whatever
stands before it; a block comment is cut off if it is closed as the pattern wants it, and otherwise
nothing is, if the text has no other marker.
-/

set_option autoImplicit false

namespace MapChain.Reference

/-- The forms of a comment from which the reader takes a URL at the end of a file. -/
inductive Form where
  | hash
  | legacy
  | spaced
  | tight
  deriving DecidableEq, Repr

namespace Form

def isBlock : Form → Bool
  | hash | legacy => false
  | spaced | tight => true

def opening : Form → String
  | hash => "//# "
  | legacy => "//@ "
  | spaced | tight => "/*# "

def closing : Form → String
  | hash | legacy => ""
  | spaced => " */"
  | tight => "*/"

def write (form : Form) (url : String) : String :=
  form.opening ++ "sourceMappingURL=" ++ url ++ form.closing

def gap : Form → List Char
  | spaced => [' ']
  | _ => []

def closes (form : Form) (url : List Char) : Bool :=
  isBlockTail ('/' :: '*' :: (url ++ form.gap).reverse)

end Form

variable {wanted : List Char → Bool} {chars front gap opening part rest tail : List Char}
  {before after url : String} {form : Form}

def trimmed (text : String) : String := String.ofList (text.toList.rdropWhile (· = '\n'))

@[simp]
theorem trimmed_trimmed (text : String) : trimmed (trimmed text) = trimmed text := by
  rw [trimmed, trimmed, String.toList_ofList, List.rdropWhile_idempotent]

theorem trimmed_split (text : String) :
    ∃ feeds, text.toList = (trimmed text).toList ++ feeds ∧ ∀ char ∈ feeds, char = '\n' := by
  obtain ⟨feeds, split, only⟩ := trailing_split (· = '\n') text.toList
  refine ⟨feeds, ?_, fun char member => of_decide_eq_true (only char member)⟩
  rw [trimmed, String.toList_ofList]
  exact split

theorem cut_last_line (here : wanted ('/' :: rest) = true)
    (missed : ∀ part, part <:+ chars → wanted (part ++ '\n' :: '/' :: rest) = false) :
    cut? wanted (chars ++ '\n' :: '/' :: rest) = some (dropLineFeeds chars) := by
  have first : beforeFirst? wanted (chars ++ ['\n'] ++ '/' :: rest) = some (chars ++ ['\n']) := by
    apply before_first_append here
    intro part filled behind
    rcases List.suffix_concat_iff.1 behind with rfl | ⟨part, rfl, early⟩
    · exact absurd rfl filled
    · rw [List.append_assoc]
      exact missed part early
  have feeds : dropLineFeeds (chars ++ ['\n']) = dropLineFeeds chars := by simp [dropLineFeeds]
  rw [List.append_assoc, List.singleton_append] at first
  rw [cut?, first, Option.map_some, feeds]

/-- From an opening, blanks do not lead over a line that begins with a slash to a marker. -/
theorem marker_before_line (single : '\n' ∉ opening)
    (blank : ∀ char ∈ gap, Blank.isBlank char = true)
    (same : part ++ '\n' :: '/' :: rest = opening ++ gap ++ marker ++ tail) :
    ∃ middle, part = opening ++ gap ++ marker ++ middle ∧ tail = middle ++ '\n' :: '/' :: rest := by
  rw [List.append_assoc, List.append_assoc] at same
  obtain ⟨part, rfl, behind⟩ := Search.append_split_of_not_mem single same.symm
  rcases List.append_eq_append_iff.1 behind with ⟨inner, rfl, after⟩ | ⟨rear, split, after⟩
  · obtain ⟨middle, rfl, ends⟩ :=
      Search.append_split_of_not_mem (blank_not_mem_marker (by decide)) after
    exact ⟨middle, by simp only [List.append_assoc], ends⟩
  -- the blanks run over the line feed, so they hold the slash or the marker begins with it
  · exfalso
    rcases rear with _ | ⟨feed, _ | ⟨slash, rear⟩⟩
    · cases after
    · cases after
    · cases after
      rw [split] at blank
      exact absurd (blank '/' (by simp)) (by decide)

theorem line_missed (part rest : List Char) :
    isLineReference (part ++ '\n' :: '/' :: rest) = false := by
  rw [Bool.eq_false_iff]
  intro here
  obtain ⟨comment, blanks, whole, line, rear⟩ := is_line_reference_iff.1 here
  cases line with
  | @mk mark gap url marked blank filled single =>
      have opened : '\n' ∉ ['/', '/', mark] := by
        rcases marked with rfl | rfl <;> decide
      have shape : part ++ '\n' :: '/' :: rest =
          ['/', '/', mark] ++ gap ++ marker ++ (url ++ blanks) := by
        rw [whole]
        simp only [List.cons_append, List.nil_append, List.append_assoc]
      obtain ⟨middle, -, after⟩ := marker_before_line opened blank shape
      obtain ⟨last, -, ends⟩ := Search.append_split_of_not_mem single after
      rw [ends] at rear
      exact absurd (rear '/' (by simp)) (by decide)

theorem block_missed (unmarked : ¬marker <:+: part) :
    isBlockReference (part ++ '\n' :: '/' :: rest) = false := by
  rw [Bool.eq_false_iff]
  intro here
  obtain ⟨comment, blanks, whole, block, -⟩ := is_block_reference_iff.1 here
  cases block with
  | @mk mark gap url last marked blank filled unquoted spaced =>
      have opened : '\n' ∉ '/' :: '*' :: mark := by
        rcases marked with rfl | rfl <;> decide
      have shape : part ++ '\n' :: '/' :: rest =
          '/' :: '*' :: mark ++ gap ++ marker ++ (url ++ [last] ++ ['*', '/'] ++ blanks) := by
        rw [whole]
        simp only [List.cons_append, List.append_assoc]
      obtain ⟨middle, split, -⟩ := marker_before_line opened blank shape
      exact unmarked ⟨_, middle, split.symm⟩

theorem write_chars (form : Form) (url : String) :
    (form.write url).toList =
      form.opening.toList ++ marker ++ url.toList ++ form.closing.toList := by
  rw [Form.write, String.toList_append, String.toList_append, String.toList_append]
  rfl

theorem write_line (line : form.isBlock = false) (url : String) :
    ∃ mark, (mark = '#' ∨ mark = '@') ∧
      (form.write url).toList = '/' :: '/' :: mark :: ([' '] ++ marker ++ url.toList) := by
  rw [write_chars]
  cases form with
  | hash => exact ⟨'#', Or.inl rfl, List.append_nil _⟩
  | legacy => exact ⟨'@', Or.inr rfl, List.append_nil _⟩
  | spaced => cases line
  | tight => cases line

theorem write_block (block : form.isBlock = true) (url : String) :
    (form.write url).toList =
      '/' :: '*' :: (['#'] ++ [' '] ++ marker ++ (url.toList ++ form.gap) ++ ['*', '/']) := by
  have opened : "/*# ".toList = ['/', '*', '#', ' '] := by decide
  have spaced : " */".toList = [' ', '*', '/'] := by decide
  have tight : "*/".toList = ['*', '/'] := by decide
  rw [write_chars]
  cases form with
  | hash => cases block
  | legacy => cases block
  | spaced => simp [Form.opening, Form.closing, Form.gap, opened, spaced]
  | tight => simp [Form.opening, Form.closing, Form.gap, opened, tight]

/-- A text with a comment in its last line but for blanks. -/
def ending (before : String) (form : Form) (url after : String) : String :=
  before ++ "\n" ++ form.write url ++ after

theorem ending_chars (before : String) (form : Form) (url after : String) :
    (ending before form url after).toList =
      before.toList ++ '\n' :: ((form.write url).toList ++ after.toList) := by
  simp [ending]

structure IsSingleLine (url : String) : Prop where
  filled : url ≠ ""
  single : '\n' ∉ url.toList

theorem cut_ending_line (line : form.isBlock = false) (own : IsSingleLine url)
    (blank : ∀ char ∈ after.toList, Blank.isBlank char = true) :
    cut? isLineReference (ending before form url after).toList =
      some (dropLineFeeds before.toList) := by
  obtain ⟨mark, marked, written⟩ := write_line line url
  have reference := @LineReference.mk mark [' '] url.toList marked
    (List.forall_mem_singleton.2 rfl) (mt String.toList_eq_nil_iff.1 own.filled) own.single
  rw [ending_chars, written]
  exact cut_last_line (is_line_reference_iff.2 ⟨_, after.toList, rfl, reference, blank⟩)
    fun part _ => line_missed part _

theorem block_covered (block : form.isBlock = true) (url : String)
    (blank : ∀ char ∈ chars, Blank.isBlank char = true) :
    isBlockReference ((form.write url).toList ++ chars) = form.closes url.toList := by
  rw [write_block block]
  exact is_block_reference_closed (Or.inr rfl) (List.forall_mem_singleton.2 rfl) blank

theorem cut_ending_closed (block : form.isBlock = true) (closed : form.closes url.toList = true)
    (unmarked : ¬marker <:+: before.toList)
    (blank : ∀ char ∈ after.toList, Blank.isBlank char = true) :
    cut? isBlockReference (ending before form url after).toList =
      some (dropLineFeeds before.toList) := by
  have covered := block_covered block url blank
  rw [closed] at covered
  rw [ending_chars]
  rw [write_block block] at covered ⊢
  exact cut_last_line covered fun part early =>
    block_missed fun inside => unmarked (inside.trans early.isInfix)

theorem unmarked_append (unmarked : ¬marker <:+: front) (absent : '=' ∉ rest) :
    ¬marker <:+: front ++ rest := by
  have split : marker = "sourceMappingURL".toList ++ ['='] := by decide
  rw [split] at unmarked ⊢
  exact fun inside => unmarked (Search.infix_of_append_infix absent inside)

theorem ending_around_marker (block : form.isBlock = true) (unmarked : ¬marker <:+: before.toList)
    (alone : ¬marker <:+: url.toList)
    (blank : ∀ char ∈ after.toList, Blank.isBlank char = true) :
    (ending before form url after).toList = (before.toList ++ '\n' :: "/*# ".toList) ++ marker ++
        (url.toList ++ form.gap ++ ['*', '/'] ++ after.toList) ∧
      ¬marker <:+: before.toList ++ '\n' :: "/*# ".toList ∧
      ¬marker <:+: url.toList ++ form.gap ++ ['*', '/'] ++ after.toList := by
  refine ⟨?_, unmarked_over_blank rfl unmarked (Search.after_last_eq_none_iff.1 rfl), ?_⟩
  · rw [ending_chars, write_block block]
    simp
  · have absent : '=' ∉ form.gap ++ (['*', '/'] ++ after.toList) := by
      have visible : '=' ∉ after.toList := fun member => absurd (blank '=' member) (by decide)
      cases form <;> simpa [Form.gap] using visible
    rw [List.append_assoc, List.append_assoc]
    exact unmarked_append alone absent

/-- Behind the only marker of a text, a block reference goes on to its end. -/
theorem block_behind_marker {early comment blanks : List Char} (alone : ¬marker <:+: front)
    (unmarked : ¬marker <:+: rest) (block : BlockReference comment)
    (whole : front ++ marker ++ rest = early ++ comment ++ blanks) :
    ∃ body, rest = body ++ ['*', '/'] ++ blanks ∧
      isBlockTail ('/' :: '*' :: body.reverse) = true := by
  cases block with
  | @mk mark gap url last marked blank filled unquoted spaced =>
      have shape : (early ++ '/' :: '*' :: (mark ++ gap)) ++ marker ++
          (url ++ [last] ++ ['*', '/'] ++ blanks) = front ++ marker ++ rest := by
        rw [whole]
        simp only [List.cons_append, List.append_assoc]
      obtain ⟨-, ends⟩ := Search.place_unique (by decide) alone unmarked shape
      refine ⟨url ++ [last], ends.symm, ?_⟩
      rw [List.reverse_append, is_block_tail_iff]
      exact ⟨url.reverse, last, rfl, spaced, by simpa using filled,
        fun char member => unquoted char (List.mem_reverse.1 member)⟩

theorem line_before_marker {early comment blanks : List Char} (alone : ¬marker <:+: front)
    (unmarked : ¬marker <:+: rest) (line : LineReference comment)
    (whole : front ++ marker ++ rest = early ++ comment ++ blanks) :
    ∃ mark gap, front = early ++ '/' :: '/' :: mark :: gap ∧ (mark = '#' ∨ mark = '@') ∧
      ∀ char ∈ gap, Blank.isBlank char = true := by
  cases line with
  | @mk mark gap url marked blank filled single =>
      have shape : (early ++ '/' :: '/' :: mark :: gap) ++ marker ++ (url ++ blanks) =
          front ++ marker ++ rest := by
        rw [whole]
        simp only [List.cons_append, List.append_assoc]
      obtain ⟨begun, -⟩ := Search.place_unique (by decide) alone unmarked shape
      exact ⟨mark, gap, begun.symm, marked, blank⟩

theorem cut_ending_unclosed (block : form.isBlock = true)
    (unclosed : form.closes url.toList = false) (unmarked : ¬marker <:+: before.toList)
    (alone : ¬marker <:+: url.toList)
    (blank : ∀ char ∈ after.toList, Blank.isBlank char = true) :
    cut? isBlockReference (ending before form url after).toList = none := by
  obtain ⟨shown, front, rear⟩ := ending_around_marker block unmarked alone blank
  rw [cut_eq_none_iff]
  rintro rest ⟨early, whole⟩
  rw [Bool.eq_false_iff]
  intro here
  obtain ⟨comment, blanks, rfl, reference, spaced⟩ := is_block_reference_iff.1 here
  rw [← List.append_assoc] at whole
  obtain ⟨body, ends, closed⟩ :=
    block_behind_marker front rear reference (shown.symm.trans whole.symm)
  rw [← body_eq_of_append blank spaced ends] at closed
  rw [Form.closes, closed] at unclosed
  cases unclosed

theorem cut_ending_block (block : form.isBlock = true) (unmarked : ¬marker <:+: before.toList)
    (alone : ¬marker <:+: url.toList)
    (blank : ∀ char ∈ after.toList, Blank.isBlank char = true) :
    cut? isLineReference (ending before form url after).toList = none := by
  obtain ⟨shown, front, rear⟩ := ending_around_marker block unmarked alone blank
  rw [cut_eq_none_iff]
  rintro rest ⟨early, whole⟩
  rw [Bool.eq_false_iff]
  intro here
  obtain ⟨comment, blanks, rfl, line, -⟩ := is_line_reference_iff.1 here
  rw [← List.append_assoc] at whole
  obtain ⟨mark, gap, opened, marked, spaced⟩ :=
    line_before_marker front rear line (shown.symm.trans whole.symm)
  -- read backwards from the marker: blanks, a mark, then a star here but a slash there
  have turned := congrArg (fun text => text.reverse.dropWhile Blank.isBlank) opened
  have behind : ∀ char ∈ gap.reverse, Blank.isBlank char = true :=
    fun char member => spaced char (List.mem_reverse.1 member)
  have visible : ¬Blank.isBlank mark = true := by
    rcases marked with rfl | rfl <;> decide
  have sheet : (before.toList ++ '\n' :: "/*# ".toList).reverse.dropWhile Blank.isBlank =
      '#' :: '*' :: '/' :: '\n' :: before.toList.reverse := by
    have chars : "/*# ".toList = ['/', '*', '#', ' '] := by decide
    rw [chars, List.reverse_append]
    rfl
  have script : (early ++ '/' :: '/' :: mark :: gap).reverse.dropWhile Blank.isBlank =
      mark :: '/' :: '/' :: early.reverse := by
    have chars : (early ++ '/' :: '/' :: mark :: gap).reverse =
        gap.reverse ++ mark :: '/' :: '/' :: early.reverse := by simp
    rw [chars, List.dropWhile_append_of_pos behind, List.dropWhile_cons_of_neg visible]
  rw [sheet, script] at turned
  exact absurd (List.cons.inj (List.cons.inj turned).2).1 (by decide)

def Unquoted (url : List Char) : Prop := ∀ char ∈ url, char ≠ '\'' ∧ char ≠ '"'

theorem spaced_closes_iff (filled : chars ≠ []) :
    Form.spaced.closes chars = true ↔ Unquoted chars := by
  rw [Form.closes, List.reverse_append, is_block_tail_iff]
  constructor
  · rintro ⟨url, last, same, -, -, unquoted⟩
    cases same
    exact fun char member => unquoted char (List.mem_reverse.2 member)
  · intro unquoted
    exact ⟨chars.reverse, ' ', rfl, rfl, by simpa using filled,
      fun char member => unquoted char (List.mem_reverse.1 member)⟩

/-- The pattern wants a blank before the end of a comment. -/
theorem tight_closes (visible : ∀ char ∈ chars, Blank.isBlank char = false) :
    Form.tight.closes chars = false := by
  rw [Bool.eq_false_iff]
  intro closed
  obtain ⟨url, last, same, space, -⟩ := is_block_tail_iff.1 closed
  have member : last ∈ (chars ++ Form.tight.gap).reverse := by
    rw [(List.cons.inj (List.cons.inj same).2).2]
    exact List.mem_cons_self
  rw [visible last (by simpa [Form.gap] using member)] at space
  cases space

end MapChain.Reference
