import MapChain.Proofs.Reference.Covering

/-!
Taking the reference off the end of a text. Where the pattern of a reference meets the end of the
text, what it covers goes, with the line feeds before it. Main statement: this is one comment and
blanks, just where the pattern neither runs on into another line nor over the end of a block
comment.
-/

set_option autoImplicit false

namespace MapChain.Reference

variable {wanted : List Char → Bool} {text front rest shorter comment blanks : List Char}
  {target : Path} {content : String}

/-- What is taken for a reference in a text that goes to `target`. -/
def IsReference (target : Path) (comment : List Char) : Prop :=
  (isStyleSheet target = false ∧ LineReference comment) ∨ BlockReference comment

/-- Stripping takes off line feeds, then `comment`, then blanks, and nothing more. -/
def Removes (target : Path) (content : String) (comment : List Char) : Prop :=
  ∃ feeds blanks, content.toList = (strip target content).toList ++ feeds ++ comment ++ blanks ∧
    (∀ char ∈ feeds, char = '\n') ∧ ∀ char ∈ blanks, Blank.isBlank char = true

theorem opened_of_reference (reference : LineReference comment ∨ BlockReference comment) :
    ∃ rest, comment = '/' :: rest := by
  rcases reference with line | block
  · cases line
    exact ⟨_, rfl⟩
  · cases block
    exact ⟨_, rfl⟩

/-- The text is the cut text, line feeds, and what the pattern covers. -/
theorem cut_removes {kind : List Char → Prop}
    (covers : ∀ text, wanted text = true ↔ ∃ comment blanks, text = comment ++ blanks ∧
      kind comment ∧ ∀ char ∈ blanks, Blank.isBlank char = true)
    (stripped : strip target content = String.ofList shorter)
    (found : cut? wanted content.toList = some shorter) :
    ∃ comment, Removes target content comment ∧ kind comment := by
  obtain ⟨feeds, rest, whole, only, here⟩ := cut_split found
  obtain ⟨comment, blanks, rfl, shape, rear⟩ := (covers rest).1 here
  refine ⟨comment, ⟨feeds, blanks, ?_, only, rear⟩, shape⟩
  rw [stripped, String.toList_ofList, whole, List.append_assoc _ comment]

theorem not_covered_of_cut {kind : List Char → Prop}
    (covers : ∀ text, wanted text = true ↔ ∃ comment blanks, text = comment ++ blanks ∧
      kind comment ∧ ∀ char ∈ blanks, Blank.isBlank char = true)
    (missed : cut? wanted text = none) (whole : text = front ++ comment ++ blanks)
    (rear : ∀ char ∈ blanks, Blank.isBlank char = true) : ¬kind comment := by
  intro shape
  have here := (covers (comment ++ blanks)).2 ⟨comment, blanks, rfl, shape, rear⟩
  have behind : comment ++ blanks <:+ text := ⟨front, by rw [whole, List.append_assoc]⟩
  rw [cut_eq_none_iff.1 missed _ behind] at here
  cases here

theorem strip_sheet (sheet : isStyleSheet target = true) (content : String) :
    strip target content =
      ((cut? isBlockReference content.toList).map String.ofList).getD content := by
  unfold strip
  dsimp only
  rw [if_pos sheet]
  cases cut? isBlockReference content.toList <;> rfl

theorem strip_script (script : ¬isStyleSheet target = true) (content : String) :
    strip target content = (((cut? isLineReference content.toList).or
      (cut? isBlockReference content.toList)).map String.ofList).getD content := by
  unfold strip
  dsimp only
  rw [if_neg script]
  cases (cut? isLineReference content.toList).or (cut? isBlockReference content.toList) <;> rfl

theorem strip_cases (target : Path) (content : String) :
    (strip target content = content ∧
        ∀ front comment blanks, content.toList = front ++ comment ++ blanks →
          (∀ char ∈ blanks, Blank.isBlank char = true) → ¬IsReference target comment) ∨
      ∃ comment, Removes target content comment ∧ IsReference target comment := by
  by_cases sheet : isStyleSheet target = true
  · have stripped := strip_sheet sheet content
    cases block : cut? isBlockReference content.toList with
    | none =>
        rw [block] at stripped
        refine Or.inl ⟨stripped, ?_⟩
        rintro front comment blanks whole rear (⟨script, -⟩ | shape)
        · rw [sheet] at script
          cases script
        · exact not_covered_of_cut (fun _ => is_block_reference_iff) block whole rear shape
    | some shorter =>
        rw [block] at stripped
        obtain ⟨comment, removes, shape⟩ :=
          cut_removes (fun _ => is_block_reference_iff) stripped block
        exact Or.inr ⟨comment, removes, Or.inr shape⟩
  · have stripped := strip_script sheet content
    cases line : cut? isLineReference content.toList with
    | some shorter =>
        rw [line, Option.some_or] at stripped
        obtain ⟨comment, removes, shape⟩ :=
          cut_removes (fun _ => is_line_reference_iff) stripped line
        exact Or.inr ⟨comment, removes, Or.inl ⟨Bool.eq_false_iff.2 sheet, shape⟩⟩
    | none =>
        rw [line, Option.none_or] at stripped
        cases block : cut? isBlockReference content.toList with
        | none =>
            rw [block] at stripped
            refine Or.inl ⟨stripped, ?_⟩
            rintro front comment blanks whole rear (⟨-, shape⟩ | shape)
            · exact not_covered_of_cut (fun _ => is_line_reference_iff) line whole rear shape
            · exact not_covered_of_cut (fun _ => is_block_reference_iff) block whole rear shape
        | some shorter =>
            rw [block] at stripped
            obtain ⟨comment, removes, shape⟩ :=
              cut_removes (fun _ => is_block_reference_iff) stripped block
            exact Or.inr ⟨comment, removes, Or.inr shape⟩

def IsLineComment (text : List Char) : Prop :=
  ∃ mark body, (mark = '#' ∨ mark = '@') ∧ text = '/' :: '/' :: mark :: body ∧ '\n' ∉ body

/-- A comment that ends at the first closing behind its opening. -/
def IsBlockComment (text : List Char) : Prop :=
  ∃ body, text = '/' :: '*' :: (body ++ ['*', '/']) ∧ ¬['*', '/'] <:+: body

def IsReferenceComment (text : List Char) : Prop :=
  (IsLineComment text ∨ IsBlockComment text) ∧ marker <:+: text

/-- The text stays as it is, or loses one reference comment with line feeds before and blanks
behind it. -/
def TakesOneComment (target : Path) (content : String) : Prop :=
  strip target content = content ∨
    ∃ comment, Removes target content comment ∧ IsReferenceComment comment

/-- A reference that runs on into another line, or over the end of a block comment. -/
def Overreaches (text : List Char) : Prop :=
  (LineReference text ∧ '\n' ∈ text) ∨
    (BlockReference text ∧ ∃ body, text = '/' :: '*' :: (body ++ ['*', '/']) ∧
      ['*', '/'] <:+: body)

theorem marker_in_reference (reference : IsReference target comment) : marker <:+: comment := by
  rcases reference with ⟨-, line⟩ | block
  · cases line with
    | @mk mark gap url =>
        exact ⟨'/' :: '/' :: mark :: gap, url, by simp only [List.cons_append]⟩
  · cases block with
    | @mk mark gap url last =>
        exact ⟨'/' :: '*' :: (mark ++ gap), url ++ [last] ++ ['*', '/'], by
          simp only [List.cons_append, List.append_assoc]⟩

theorem comment_of_reference (reference : IsReference target comment)
    (modest : ¬Overreaches comment) : IsReferenceComment comment := by
  refine ⟨?_, marker_in_reference reference⟩
  rcases reference with ⟨-, line⟩ | block
  · have single : '\n' ∉ comment := fun feed => modest (Or.inl ⟨line, feed⟩)
    cases line with
    | mk marked =>
        refine Or.inl ⟨_, _, marked, rfl, fun feed => single ?_⟩
        exact List.mem_cons_of_mem _ (List.mem_cons_of_mem _ (List.mem_cons_of_mem _ feed))
  · have closed := fun body shape inside => modest (Or.inr ⟨block, body, shape, inside⟩)
    cases block with
    | mk => exact Or.inr ⟨_, rfl, closed _ rfl⟩

theorem line_reference_ne {other rear : List Char} (line : LineReference comment)
    (feed : '\n' ∈ comment) (single : '\n' ∉ other)
    (blank : ∀ char ∈ rear, Blank.isBlank char = true) : comment ++ blanks ≠ other ++ rear := by
  intro same
  cases line with
  | @mk mark gap url marked spaced filled short =>
      have unmarked : '\n' ≠ mark := by
        rcases marked with rfl | rfl <;> decide
      have early : '\n' ∈ '/' :: '/' :: mark :: gap := by
        have apart : '\n' ∉ marker := by decide
        simpa [apart, short, unmarked] using feed
      have kept : (other ++ rear).dropWhile (· ≠ '\n') = rear.dropWhile (· ≠ '\n') :=
        List.dropWhile_append_of_pos fun char member =>
          decide_eq_true fun here => single (here ▸ member)
      have opened : ('/' :: '/' :: mark :: gap).dropWhile (· ≠ '\n') ≠ [] := by
        intro none
        exact of_decide_eq_true (List.dropWhile_eq_nil_iff.1 none _ early) rfl
      -- the marker stands behind the first line feed, where nothing of `other` is left
      have behind : 's' ∈ (other ++ rear).dropWhile (· ≠ '\n') := by
        have shown : 's' ∈ marker ++ (url ++ blanks) := List.mem_append_left _ (by decide)
        have whole : '/' :: '/' :: mark :: (gap ++ marker ++ url) ++ blanks =
            '/' :: '/' :: mark :: gap ++ (marker ++ (url ++ blanks)) := by
          simp only [List.cons_append, List.append_assoc]
        rw [← same, whole, List.dropWhile_append, if_neg (by simpa using opened)]
        exact List.mem_append_right _ shown
      rw [kept] at behind
      exact absurd (blank 's' ((List.dropWhile_sublist _).subset behind)) (by decide)

theorem body_eq_of_append {body other rear : List Char}
    (blank : ∀ char ∈ blanks, Blank.isBlank char = true)
    (spaced : ∀ char ∈ rear, Blank.isBlank char = true)
    (same : body ++ ['*', '/'] ++ blanks = other ++ ['*', '/'] ++ rear) : body = other := by
  have ends := congrArg (fun text => text.reverse.dropWhile Blank.isBlank) same
  rw [drop_behind_closing blank, drop_behind_closing spaced] at ends
  exact List.reverse_inj.1 (List.cons.inj (List.cons.inj ends).2).2

/-- Line feeds before two comments do not change where the comments begin. -/
theorem opening_eq_of_append {feeds early : List Char} {other rear : List Char}
    (only : ∀ char ∈ feeds, char = '\n') (single : ∀ char ∈ early, char = '\n')
    (same : feeds ++ '/' :: rest ++ blanks = early ++ '/' :: other ++ rear) :
    '/' :: rest ++ blanks = '/' :: other ++ rear := by
  have begun : ∀ {feeds rest : List Char}, (∀ char ∈ feeds, char = '\n') →
      (feeds ++ '/' :: rest).dropWhile (· = '\n') = '/' :: rest := by
    intro feeds rest only
    rw [List.dropWhile_append_of_pos fun char member => decide_eq_true (only char member)]
    exact List.dropWhile_cons_of_neg (by decide)
  have drops := congrArg (List.dropWhile (· = '\n')) same
  rwa [List.append_assoc, List.append_assoc, List.cons_append, List.cons_append, begun only,
    begun single] at drops

theorem opened_of_comment (single : IsReferenceComment comment) :
    ∃ rest, comment = '/' :: rest := by
  obtain ⟨⟨mark, body, -, rfl, -⟩ | ⟨body, rfl, -⟩, -⟩ := single
  · exact ⟨_, rfl⟩
  · exact ⟨_, rfl⟩

theorem strip_ne_of_removes (removes : Removes target content ('/' :: rest)) :
    strip target content ≠ content := by
  intro same
  obtain ⟨feeds, blanks, whole, -⟩ := removes
  rw [same, List.append_assoc, List.append_assoc] at whole
  have nothing := List.self_eq_append_right.1 whole
  simp at nothing

theorem not_takes_one_of_overreaches (removes : Removes target content comment)
    (reaching : Overreaches comment) : ¬TakesOneComment target content := by
  obtain ⟨rest, rfl⟩ := opened_of_reference (reaching.imp And.left And.left)
  rintro (same | ⟨other, removed, single⟩)
  · exact strip_ne_of_removes removes same
  obtain ⟨inner, rfl⟩ := opened_of_comment single
  obtain ⟨feeds, blanks, whole, only, blank⟩ := removes
  obtain ⟨early, rear, split, alone, spaced⟩ := removed
  rw [List.append_assoc, List.append_assoc] at whole split
  -- both begin with a slash, so they begin at the same place and differ only in where they end
  have same : '/' :: rest ++ blanks = '/' :: inner ++ rear := by
    refine opening_eq_of_append only alone ?_
    simpa only [List.append_assoc] using List.append_cancel_left (whole.symm.trans split)
  rcases reaching with ⟨line, feed⟩ | ⟨-, body, shape, closed⟩
  · obtain ⟨⟨mark, text, marked, shown, unbroken⟩ | ⟨text, shown, -⟩, -⟩ := single
    · refine line_reference_ne line feed ?_ spaced same
      rw [shown]
      rcases marked with rfl | rfl <;> simpa using unbroken
    · rw [shown] at same
      cases line
      exact absurd (List.cons.inj (List.cons.inj same).2).1 (by decide)
  · rw [shape] at same
    obtain ⟨⟨mark, text, -, shown, -⟩ | ⟨text, shown, unclosed⟩, -⟩ := single
    · rw [shown] at same
      exact absurd (List.cons.inj (List.cons.inj same).2).1 (by decide)
    · rw [shown] at same
      have bodies := (List.cons.inj (List.cons.inj same).2).2
      exact unclosed (body_eq_of_append blank spaced bodies ▸ closed)

/-- Stripping takes at most one reference off the end of a text, with the line feeds before it and
the blanks behind it, and leaves a text as it is just where no reference stands at its end. What it
takes is one comment just where this reference does not overreach. -/
theorem strip_takes_one_comment_iff (target : Path) (content : String) :
    (strip target content = content ∨
        ∃ comment, Removes target content comment ∧ IsReference target comment) ∧
      (strip target content = content ↔
        ∀ front comment blanks, content.toList = front ++ comment ++ blanks →
          (∀ char ∈ blanks, Blank.isBlank char = true) → ¬IsReference target comment) ∧
      (TakesOneComment target content ↔
        ∀ comment, Removes target content comment → ¬Overreaches comment) ∧
      ((∀ front comment blanks, content.toList = front ++ comment ++ blanks →
          (∀ char ∈ blanks, Blank.isBlank char = true) → IsReference target comment →
            ¬Overreaches comment) → TakesOneComment target content) := by
  rcases strip_cases target content with ⟨same, free⟩ | ⟨comment, removes, reference⟩
  · have whole : TakesOneComment target content := Or.inl same
    refine ⟨Or.inl same, iff_of_true same free, iff_of_true whole ?_, fun _ => whole⟩
    intro comment removes reaching
    exact not_takes_one_of_overreaches removes reaching whole
  · have present := removes
    obtain ⟨feeds, blanks, split, -, blank⟩ := present
    have removed : ¬Overreaches comment → TakesOneComment target content :=
      fun modest => Or.inr ⟨comment, removes, comment_of_reference reference modest⟩
    obtain ⟨rest, opened⟩ := opened_of_reference (reference.imp_left And.right)
    refine ⟨Or.inr ⟨comment, removes, reference⟩, iff_of_false ?_ ?_, ⟨?_, ?_⟩, ?_⟩
    · exact strip_ne_of_removes (opened ▸ removes)
    · intro free
      exact free _ comment blanks split blank reference
    · intro takes other gone reaching
      exact not_takes_one_of_overreaches gone reaching takes
    · intro modest
      exact removed (modest comment removes)
    · intro modest
      exact removed (modest _ comment blanks split blank reference)

/-- A line feed between a comment and its marker takes a line of code away, and so does a block
comment before another one. -/
theorem strip_takes_code :
    (strip ⟨"out.js"⟩ "a\n//#\nsourceMappingURL=f()\n" = "a" ∧
        ¬TakesOneComment ⟨"out.js"⟩ "a\n//#\nsourceMappingURL=f()\n") ∧
      strip ⟨"out.js"⟩ "a\n/*# sourceMappingURL=a.map */ b(); /* c */" = "a" ∧
        ¬TakesOneComment ⟨"out.js"⟩ "a\n/*# sourceMappingURL=a.map */ b(); /* c */" := by
  have line : strip ⟨"out.js"⟩ "a\n//#\nsourceMappingURL=f()\n" = "a" := by decide
  have block : strip ⟨"out.js"⟩ "a\n/*# sourceMappingURL=a.map */ b(); /* c */" = "a" := by
    decide
  refine ⟨⟨line, ?_⟩, block, ?_⟩
  · have taken : Removes ⟨"out.js"⟩ "a\n//#\nsourceMappingURL=f()\n"
        ("//#\nsourceMappingURL=f()".toList) := by
      refine ⟨['\n'], ['\n'], ?_, List.forall_mem_singleton.2 rfl,
        List.forall_mem_singleton.2 rfl⟩
      rw [line]
      decide
    have shape : LineReference ("//#\nsourceMappingURL=f()".toList) :=
      @LineReference.mk '#' ['\n'] "f()".toList (Or.inl rfl) (List.forall_mem_singleton.2 rfl)
        (by decide) (by decide)
    exact not_takes_one_of_overreaches taken (Or.inl ⟨shape, by decide⟩)
  · have taken : Removes ⟨"out.js"⟩ "a\n/*# sourceMappingURL=a.map */ b(); /* c */"
        ("/*# sourceMappingURL=a.map */ b(); /* c */".toList) := by
      refine ⟨['\n'], [], ?_, List.forall_mem_singleton.2 rfl, List.forall_mem_nil _⟩
      rw [block]
      decide
    have shape : BlockReference ("/*# sourceMappingURL=a.map */ b(); /* c */".toList) :=
      @BlockReference.mk ['#'] [' '] "a.map */ b(); /* c".toList ' ' (Or.inr rfl)
        (List.forall_mem_singleton.2 rfl) (by decide) (by simp) (by decide)
    have closed : ['*', '/'] <:+: "# sourceMappingURL=a.map */ b(); /* c ".toList :=
      ⟨"# sourceMappingURL=a.map ".toList, " b(); /* c ".toList, rfl⟩
    exact not_takes_one_of_overreaches taken (Or.inr ⟨shape, _, rfl, closed⟩)

end MapChain.Reference
