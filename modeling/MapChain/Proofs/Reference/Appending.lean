import MapChain.Proofs.Reference.Coding

/-!
Comments that are written behind a text, and the reader of that text. Main statement: whatever the
text holds and wherever it goes, the reader finds the URL of the comment just where that URL holds
no marker of its own.
-/

set_option autoImplicit false

namespace MapChain.Reference

variable {url : String}

/-- The reader finds the URL that is appended to a text, coded, just where no part of it reads as
another reference. -/
theorem appended_url_found_iff (text : String) (target : Path) (filled : url ≠ "")
    (coded : IsCoded url) (unclosed : ¬['*', '/'] <:+ url.toList) :
    findUrl? (text ++ comment target url) = some (encodeUrl url) ↔ ¬marker <:+: url.toList := by
  constructor
  · intro found inside
    apply unmarked_of_find_url found
    rw [encode_url_of_coded coded]
    exact marker_infix_encode_url inside
  · intro unmarked
    apply find_url_comment
    exact is_legible_encode_url coded filled unmarked unclosed

def stackedText : String := "a\n/*# sourceMappingURL=a.map */\n//# sourceMappingURL="

theorem stacked_url_found :
    "é b.map" ≠ "" ∧ IsCoded "é b.map" ∧ ¬['*', '/'] <:+ "é b.map".toList ∧
      findUrl? (stackedText ++ comment ⟨"b.CSS"⟩ "é b.map") = some "%C3%A9%20b.map" ∧
      findUrl? (stackedText ++ comment ⟨"b.js"⟩ "é b.map") = some "%C3%A9%20b.map" ∧
      findUrl? (stackedText ++ comment ⟨"b.js"⟩ "sourceMappingURL=b.map") ≠
        some (encodeUrl "sourceMappingURL=b.map") := by
  have filled : "é b.map" ≠ "" := by decide
  have coded : IsCoded "é b.map" := by
    unfold IsCoded
    decide
  have unclosed : ¬['*', '/'] <:+ "é b.map".toList := by decide
  have unmarked : ¬marker <:+: "é b.map".toList := Search.after_last_eq_none_iff.1 (by decide)
  have shown : encodeUrl "é b.map" = "%C3%A9%20b.map" := by decide +kernel
  have sheet := (appended_url_found_iff stackedText ⟨"b.CSS"⟩ filled coded unclosed).2 unmarked
  have script := (appended_url_found_iff stackedText ⟨"b.js"⟩ filled coded unclosed).2 unmarked
  rw [shown] at sheet script
  refine ⟨filled, coded, unclosed, sheet, script, ?_⟩
  intro found
  have marked : marker <:+: "sourceMappingURL=b.map".toList := ⟨[], "b.map".toList, by decide⟩
  have other : IsCoded "sourceMappingURL=b.map" := by
    unfold IsCoded
    decide
  exact (appended_url_found_iff stackedText ⟨"b.js"⟩ (by decide) other (by decide)).1 found marked

end MapChain.Reference
