import MapChain.Proofs.Reference.Spelling
import MapChain.Proofs.Reference.Trailing

/-!
Texts that are written again. The comment that is put behind a text is the last line of what is
written. Main statement: the comment of a style sheet is taken off again just where its URL is
written without quotes.
-/

set_option autoImplicit false

namespace MapChain.Reference

variable {target : Path} {text url : String}

theorem append_comment_script (script : isStyleSheet target = false) (text url : String) :
    text ++ comment target url = ending text .hash (encodeUrl url) "\n" := by
  have opening : "\n//# sourceMappingURL=" =
      "\n" ++ Form.hash.opening ++ "sourceMappingURL=" := by decide
  rw [comment, if_neg (Bool.eq_false_iff.1 script), opening, ending, Form.write]
  simp [Form.closing, String.append_assoc]

theorem append_comment_sheet (sheet : isStyleSheet target = true) (text url : String) :
    text ++ comment target url = ending text .spaced (encodeUrl url) "\n" := by
  have opening : "\n/*# sourceMappingURL=" =
      "\n" ++ Form.spaced.opening ++ "sourceMappingURL=" := by decide
  have closing : " */\n" = Form.spaced.closing ++ "\n" := by decide
  rw [comment, if_pos sheet, opening, closing, ending, Form.write]
  simp only [String.append_assoc]

theorem is_single_line_encode_url (line : IsSingleLine url) : IsSingleLine (encodeUrl url) := by
  by_cases coded : IsCoded url
  · refine ⟨fun empty => encode_url_ne_nil coded line.filled (String.toList_eq_nil_iff.2 empty), ?_⟩
    intro feed
    exact absurd (visible_of_mem_encode_url coded feed) (by decide)
  · rw [encode_url_of_data url (List.isPrefixOf_iff_prefix.2 (not_not.1 coded))]
    exact line

theorem feed_blank : ∀ char ∈ "\n".toList, Blank.isBlank char = true :=
  List.all_eq_true.1 (by decide)

/-- What is put behind a script comes off again, whatever the script holds. -/
theorem strip_comment_script (script : isStyleSheet target = false) (line : IsSingleLine url)
    (text : String) : strip target (text ++ comment target url) = trimmed text := by
  have cut := @cut_ending_line text "\n" _ .hash rfl (is_single_line_encode_url line) feed_blank
  rw [append_comment_script script, strip_script (Bool.eq_false_iff.1 script), cut]
  rfl

theorem closes_encode_url_iff (line : IsSingleLine url) :
    Form.spaced.closes (encodeUrl url).toList = true ↔ Unquoted (encodeUrl url).toList :=
  spaced_closes_iff (mt String.toList_eq_nil_iff.1 (is_single_line_encode_url line).filled)

theorem strip_comment_sheet (sheet : isStyleSheet target = true) (line : IsSingleLine url)
    (unmarked : ¬marker <:+: text.toList) (unquoted : Unquoted (encodeUrl url).toList) :
    strip target (text ++ comment target url) = trimmed text := by
  have closed := (closes_encode_url_iff line).2 unquoted
  have cut := @cut_ending_closed text "\n" _ .spaced rfl closed unmarked feed_blank
  rw [append_comment_sheet sheet, strip_sheet sheet, cut]
  rfl

/-- What goes with a whole comment is that comment, so a block pattern covers it. -/
theorem unquoted_of_strip (sheet : isStyleSheet target = true) (line : IsSingleLine url)
    (stripped : strip target (text ++ comment target url) = trimmed text) :
    Unquoted (encodeUrl url).toList := by
  rw [← closes_encode_url_iff line, ← block_covered rfl _ feed_blank]
  obtain ⟨inner, written⟩ : ∃ inner, (Form.spaced.write (encodeUrl url)).toList = '/' :: inner :=
    ⟨_, write_block rfl _⟩
  rw [written]
  obtain ⟨early, split, alone⟩ := trimmed_split text
  have shown : (text ++ comment target url).toList =
      (trimmed text).toList ++ (early ++ ['\n'] ++ '/' :: inner ++ "\n".toList) := by
    rw [append_comment_sheet sheet, ending_chars, written, split]
    simp
  rcases strip_cases target (text ++ comment target url) with ⟨same, -⟩ | ⟨taken, removes, kind⟩
  · rw [← same, stripped] at shown
    have nothing := List.self_eq_append_right.1 shown
    simp at nothing
  · obtain ⟨feeds, blanks, whole, only, rear⟩ := removes
    have block : BlockReference taken := by
      rcases kind with ⟨script, -⟩ | block
      · rw [sheet] at script
        cases script
      · exact block
    obtain ⟨rest, rfl⟩ := opened_of_reference (Or.inr block)
    have behind : early ++ ['\n'] ++ '/' :: inner ++ "\n".toList =
        feeds ++ '/' :: rest ++ blanks := by
      rw [stripped, shown] at whole
      simpa only [List.append_assoc, List.append_cancel_left_eq] using whole
    have single : ∀ char ∈ early ++ ['\n'], char = '\n' := by
      simpa [or_imp, forall_and] using alone
    rw [opening_eq_of_append single only behind, is_block_reference_iff]
    exact ⟨_, blanks, rfl, block, rear⟩

theorem marker_infix_of_encoded (inside : marker <:+: (encodeUrl url).toList) :
    marker <:+: url.toList := by
  by_cases coded : IsCoded url
  · rw [encode_url_of_coded coded] at inside
    exact marker_infix_of_encode_url inside
  · rwa [encode_url_of_data url (List.isPrefixOf_iff_prefix.2 (not_not.1 coded))] at inside

/-- A comment with a quote in it stays, and so it is followed by the next one. -/
theorem strip_quoted (sheet : isStyleSheet target = true) (line : IsSingleLine url)
    (unmarked : ¬marker <:+: text.toList) (alone : ¬marker <:+: url.toList)
    (quoted : ¬Unquoted (encodeUrl url).toList) :
    strip target (text ++ comment target url) = text ++ comment target url := by
  have unclosed : Form.spaced.closes (encodeUrl url).toList = false :=
    Bool.eq_false_iff.2 (mt (closes_encode_url_iff line).1 quoted)
  have cut := @cut_ending_unclosed text "\n" _ .spaced rfl unclosed unmarked
    (mt marker_infix_of_encoded alone) feed_blank
  rw [append_comment_sheet sheet, strip_sheet sheet, cut]
  rfl

theorem unquoted_encode_url_iff (coded : IsCoded url) :
    Unquoted (encodeUrl url).toList ↔ '\'' ∉ url.toList := by
  have kept : '\'' ∈ (encodeUrl url).toList ↔ '\'' ∈ url.toList :=
    mem_encode_url_iff coded (by decide) (by decide)
  rw [← kept]
  constructor
  · intro unquoted member
    exact (unquoted _ member).1 rfl
  · intro absent char member
    refine ⟨fun same => absent (same ▸ member), ?_⟩
    rintro rfl
    have allowed := kept_or_percent_of_spelled (is_spelled_encode_url coded) member
    exact absurd allowed (by decide)

/-- The comment that is put behind a style sheet comes off again just where its URL is written
without quotes. Coding leaves an apostrophe as it is, and a comment with one stays. -/
theorem sheet_comment_taken_iff (sheet : isStyleSheet target = true) (line : IsSingleLine url)
    (unmarked : ¬marker <:+: text.toList) :
    (strip target (text ++ comment target url) = trimmed text ↔
        Unquoted (encodeUrl url).toList) ∧
      (IsCoded url → (Unquoted (encodeUrl url).toList ↔ '\'' ∉ url.toList)) ∧
      (¬Unquoted (encodeUrl url).toList → ¬marker <:+: url.toList →
        strip target (text ++ comment target url) = text ++ comment target url) := by
  refine ⟨⟨unquoted_of_strip sheet line, strip_comment_sheet sheet line unmarked⟩,
    unquoted_encode_url_iff, ?_⟩
  intro quoted alone
  exact strip_quoted sheet line unmarked alone quoted

/-- A comment with an apostrophe in its URL stays where it is. -/
theorem quoted_comment_stays :
    isStyleSheet ⟨"it's.CSS"⟩ = true ∧ IsSingleLine "it's.CSS.map" ∧ ¬marker <:+: "a\n".toList ∧
      strip ⟨"it's.CSS"⟩ ("a\n" ++ comment ⟨"it's.CSS"⟩ "it's.CSS.map") ≠ trimmed "a\n" := by
  have alone : ¬marker <:+: "a\n".toList := Search.after_last_eq_none_iff.1 rfl
  exact ⟨rfl, ⟨by decide, by decide⟩, alone, by decide +kernel⟩

/-- Other quotes are coded, so only the apostrophe keeps a comment in its place. -/
theorem only_plain_comment_taken :
    isStyleSheet ⟨"b.css"⟩ = true ∧ IsSingleLine "\"é\".map" ∧ IsSingleLine "it's.map" ∧
      ¬marker <:+: "a\n/*\n".toList ∧
      strip ⟨"b.css"⟩ ("a\n/*\n" ++ comment ⟨"b.css"⟩ "\"é\".map") = trimmed "a\n/*\n" ∧
      strip ⟨"b.css"⟩ ("a\n/*\n" ++ comment ⟨"b.css"⟩ "it's.map") =
        "a\n/*\n" ++ comment ⟨"b.css"⟩ "it's.map" := by
  have sheet : isStyleSheet ⟨"b.css"⟩ = true := rfl
  have plain : IsSingleLine "\"é\".map" := ⟨by decide, by decide⟩
  have quoted : IsSingleLine "it's.map" := ⟨by decide, by decide⟩
  have unmarked : ¬marker <:+: "a\n/*\n".toList := Search.after_last_eq_none_iff.1 rfl
  have coded : IsCoded "\"é\".map" ∧ IsCoded "it's.map" := by
    unfold IsCoded
    decide
  obtain ⟨taken, free, -⟩ := sheet_comment_taken_iff sheet plain unmarked
  obtain ⟨-, bound, stays⟩ := sheet_comment_taken_iff sheet quoted unmarked
  have alone : ¬marker <:+: "it's.map".toList := Search.after_last_eq_none_iff.1 rfl
  refine ⟨sheet, plain, quoted, unmarked, taken.2 ((free coded.1).2 (by decide)), ?_⟩
  exact stays (fun unquoted => (bound coded.2).1 unquoted (by decide)) alone

def rewrite (target : Path) (text url : String) : String :=
  strip target text ++ comment target url

def rewriteAll (target : Path) (text : String) (urls : List String) : String :=
  urls.foldl (rewrite target) text

theorem rewrite_all_concat (target : Path) (text : String) (urls : List String) (last : String) :
    rewriteAll target text (urls ++ [last]) =
      strip target (rewriteAll target text urls) ++ comment target last :=
  List.foldl_concat _ _ _ _

theorem strip_rewrite_all {urls : List String} (script : isStyleSheet target = false)
    (first : IsSingleLine url) (lines : ∀ url ∈ urls, IsSingleLine url) (text : String) :
    strip target (rewriteAll target (text ++ comment target url) urls) = trimmed text := by
  induction urls using List.reverseRecOn with
  | nil => exact strip_comment_script script first text
  | append_singleton urls last induction =>
      have before := induction fun url member => lines url (List.mem_append_left _ member)
      have own := lines last (List.mem_append_right _ (List.mem_singleton_self last))
      rw [rewrite_all_concat, strip_comment_script script own, before, trimmed_trimmed]

end MapChain.Reference
