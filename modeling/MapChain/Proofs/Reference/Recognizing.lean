import MapChain.Proofs.Reference.Trailing

/-!
Comments at the end of a file that the reader finds, against those that stripping takes. Main
statement: of the forms that are read, stripping takes all but the block comment that is closed
right behind its URL.
-/

set_option autoImplicit false

namespace MapChain.Reference

variable {before after url : String} {target : Path} {form : Form}

def isBareChar (char : Char) : Bool :=
  !Blank.isBlank char && char ≠ '\'' && char ≠ '"' && char ≠ '*'

/-- A URL that needs no care. -/
structure IsBare (url : String) : Prop where
  filled : url ≠ ""
  plain : url.toList.all isBareChar = true

theorem IsBare.visible (bare : IsBare url) {char : Char} (member : char ∈ url.toList) :
    Blank.isBlank char = false := by
  have plain := List.all_eq_true.1 bare.plain char member
  simp only [isBareChar, Bool.and_eq_true, Bool.not_eq_true'] at plain
  exact plain.1.1.1

theorem IsBare.unquoted (bare : IsBare url) : Unquoted url.toList := by
  intro char member
  have plain := List.all_eq_true.1 bare.plain char member
  simp only [isBareChar, Bool.and_eq_true, decide_eq_true_eq] at plain
  exact ⟨plain.1.1.2, plain.1.2⟩

theorem IsBare.single_line (bare : IsBare url) : IsSingleLine url where
  filled := bare.filled
  single := fun feed => absurd (bare.visible feed) (by decide)

theorem closes_bare (bare : IsBare url) (block : form.isBlock = true) :
    form.closes url.toList = decide (form ≠ .tight) := by
  cases form with
  | hash => cases block
  | legacy => cases block
  | spaced => exact (spaced_closes_iff (mt String.toList_eq_nil_iff.1 bare.filled)).2 bare.unquoted
  | tight => exact tight_closes fun char member => bare.visible member

theorem strip_ending (suited : isStyleSheet target = true → form.isBlock = true)
    (unmarked : ¬marker <:+: before.toList) (bare : IsBare url) (alone : ¬marker <:+: url.toList)
    (blank : ∀ char ∈ after.toList, Blank.isBlank char = true) :
    strip target (ending before form url after) =
      if form = .tight then ending before form url after else trimmed before := by
  cases block : form.isBlock with
  | false =>
      have script : ¬isStyleSheet target = true := by
        intro sheet
        rw [suited sheet] at block
        cases block
      have loose : form ≠ .tight := by
        rintro rfl
        cases block
      rw [strip_script script, cut_ending_line block bare.single_line blank, if_neg loose]
      rfl
  | true =>
      have sheet : strip target (ending before form url after) =
          ((cut? isBlockReference (ending before form url after).toList).map String.ofList).getD
            (ending before form url after) := by
        by_cases sheet : isStyleSheet target = true
        · exact strip_sheet sheet _
        · rw [strip_script sheet, cut_ending_block block unmarked alone blank, Option.none_or]
      have closes := closes_bare bare block
      rw [sheet]
      by_cases closed : form = .tight
      · rw [decide_eq_false (not_not.2 closed)] at closes
        rw [cut_ending_unclosed block closes unmarked alone blank, if_pos closed]
        rfl
      · rw [decide_eq_true closed] at closes
        rw [cut_ending_closed block closes unmarked blank, if_neg closed]
        rfl

/-- Of the comments that are read at the end of a file, stripping takes those that are closed
behind a blank, or with their line, and leaves the text before them; a block comment that is closed
right behind its URL stays, and is read again. -/
theorem found_comment_taken_iff (suited : isStyleSheet target = true → form.isBlock = true)
    (unmarked : ¬marker <:+: before.toList) (bare : IsBare url)
    (blank : Blank.isAllBlank after.toList = true)
    (found : findUrl? (ending before form url after) = some url) :
    (findUrl? (strip target (ending before form url after)) = none ↔ form ≠ .tight) ∧
      strip target (ending before form url after) =
        if form = .tight then ending before form url after else trimmed before := by
  have whole := strip_ending suited unmarked bare (unmarked_of_find_url found)
    (List.all_eq_true.1 blank)
  refine ⟨?_, whole⟩
  rw [whole]
  by_cases closed : form = .tight
  · rw [if_pos closed, found]
    exact iff_of_false (Option.some_ne_none _) (not_not.2 closed)
  · rw [if_neg closed]
    refine iff_of_true (find_url_eq_none ?_) closed
    obtain ⟨feeds, split, -⟩ := trimmed_split before
    intro inside
    apply unmarked
    rw [split]
    exact inside.trans (List.prefix_append _ _).isInfix

/-- A block comment that is closed right behind its URL is read, stays, and is read again. -/
theorem tight_comment_stays :
    isStyleSheet ⟨"a.css"⟩ = true ∧ Form.tight.isBlock = true ∧ ¬marker <:+: "a".toList ∧
      IsBare "b.map" ∧ Blank.isAllBlank "\n".toList = true ∧
      findUrl? (ending "a" .tight "b.map" "\n") = some "b.map" ∧
      findUrl? (strip ⟨"a.css"⟩ (ending "a" .tight "b.map" "\n")) ≠ none := by
  have alone : ¬marker <:+: "a".toList := Search.after_last_eq_none_iff.1 rfl
  exact ⟨rfl, rfl, alone, ⟨by decide, by decide⟩, by decide, by decide +kernel, by decide +kernel⟩

theorem legacy_comment_taken :
    (isStyleSheet ⟨"a.js"⟩ = true → Form.legacy.isBlock = true) ∧
      ¬marker <:+: "a\n//#\n".toList ∧ IsBare "é/b.map" ∧
      Blank.isAllBlank "\r\n \n".toList = true ∧
      findUrl? (ending "a\n//#\n" .legacy "é/b.map" "\r\n \n") = some "é/b.map" ∧
      findUrl? (strip ⟨"a.js"⟩ (ending "a\n//#\n" .legacy "é/b.map" "\r\n \n")) = none ∧
      strip ⟨"a.js"⟩ (ending "a\n//#\n" .legacy "é/b.map" "\r\n \n") = "a\n//#" := by
  have suited : isStyleSheet ⟨"a.js"⟩ = true → Form.legacy.isBlock = true := by decide
  have alone : ¬marker <:+: "a\n//#\n".toList := Search.after_last_eq_none_iff.1 rfl
  have bare : IsBare "é/b.map" := ⟨by decide, by decide⟩
  have blank : Blank.isAllBlank "\r\n \n".toList = true := by decide
  have found : findUrl? (ending "a\n//#\n" .legacy "é/b.map" "\r\n \n") = some "é/b.map" := by
    decide +kernel
  obtain ⟨taken, left⟩ := found_comment_taken_iff suited alone bare blank found
  exact ⟨suited, alone, bare, blank, found, taken.2 (by decide), left⟩

end MapChain.Reference
