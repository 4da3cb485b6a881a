import MapChain.Proofs.Chain.Emitting
import MapChain.Proofs.Reference.Rewriting

/-!
Artifacts that are written again. Main statement: a script keeps its text through any number of
writes and ends with one comment, the last.
-/

set_option autoImplicit false

namespace MapChain.Chain

variable {chain : Chain} {options : Options} {place : Option Path} {emit : Emit}
  {map : SourceMap} {target : Path} {url : String}

theorem rewritten_of_emit (emitted : (chain.emit place options).2 = .ok emit)
    (mapped : emit.map = some map) :
    ∃ url, emit.content = chain.rootContent?.map (Reference.rewrite emit.target · url) := by
  cases found : place.or chain.rootPath? with
  | none =>
      rw [Chain.emit, found] at emitted
      cases emitted
  | some file =>
      obtain ⟨base, content, same, ends⟩ := emit_of_file options found
      rw [same, Except.ok.injEq] at emitted
      rw [← emitted] at mapped ⊢
      exact ⟨_, ends map mapped⟩

/-- Behind whatever text, the comment of a script comes off again with the line feeds before it. So
any number of writes leaves the text and one comment, and what a chain emits over its own artifact
is the same text with a new comment. -/
theorem script_rewriting_is_stable (script : Reference.isStyleSheet target = false)
    (text : String) :
    (∀ url, Reference.IsSingleLine url →
      Reference.strip target (text ++ Reference.comment target url) = Reference.trimmed text) ∧
    (∀ first urls last, (∀ url ∈ first :: urls ++ [last], Reference.IsSingleLine url) →
      Reference.rewriteAll target (text ++ Reference.comment target first) (urls ++ [last]) =
        Reference.trimmed text ++ Reference.comment target last) ∧
    ∀ (chain : Chain) (place : Option Path) (options : Options) (emit : Emit) (map : SourceMap)
      (first : String), Reference.IsSingleLine first →
      chain.rootContent? = some (text ++ Reference.comment target first) →
      (chain.emit place options).2 = .ok emit → emit.target = target → emit.map = some map →
      ∃ url, emit.content = some (Reference.trimmed text ++ Reference.comment target url) := by
  refine ⟨fun url line => Reference.strip_comment_script script line text, ?_, ?_⟩
  · intro first urls last lines
    have begun := lines first List.mem_cons_self
    have middle : ∀ url ∈ urls, Reference.IsSingleLine url := fun url member =>
      lines url (List.mem_cons_of_mem _ (List.mem_append_left _ member))
    rw [Reference.rewrite_all_concat, Reference.strip_rewrite_all script begun middle]
  · intro chain place options emit map first line root emitted same mapped
    obtain ⟨url, written⟩ := rewritten_of_emit emitted mapped
    refine ⟨url, ?_⟩
    rw [written, root, same, Option.map_some, Reference.rewrite,
      Reference.strip_comment_script script line]

def stackedScript : String := "//# sourceMappingURL=old.map\nf()\n//@ sourceMappingURL=\n//#\n\n"

def stacked : Chain where
  graph :=
    { nodes := #[
        { path := some ⟨"/a.js"⟩
          content := some (stackedScript ++ Reference.comment ⟨"/a.js"⟩ "a.js.map")
          map := some ⟨3, none, [some "a.ts"], [], [], "AAAA", none⟩
          mappings := some [[⟨0, some ⟨0, 0, 0, none⟩⟩]]
          sources := [1]
          state := .loaded },
        { path := some ⟨"/a.ts"⟩
          content := some "f()"
          map := none
          mappings := none
          sources := []
          state := .loaded }]
      index := [(⟨"/a.ts"⟩, 1), (⟨"/a.js"⟩, 0)] }
  root := 0
  untraceable := 0
  directory := ⟨"/"⟩

theorem stacked_is_stable :
    Reference.isStyleSheet ⟨"/a.js"⟩ = false ∧ Reference.IsSingleLine "a.js.map" ∧
      Reference.strip ⟨"/a.js"⟩ (stackedScript ++ Reference.comment ⟨"/a.js"⟩ "a.js.map") =
        Reference.trimmed stackedScript ∧
      Reference.rewriteAll ⟨"/a.js"⟩ (stackedScript ++ Reference.comment ⟨"/a.js"⟩ "a.js.map")
          ["é b", "a.js.map"] =
        Reference.trimmed stackedScript ++ Reference.comment ⟨"/a.js"⟩ "a.js.map" ∧
      ∃ emit map url, (stacked.emit none {}).2 = .ok emit ∧ emit.map = some map ∧
        emit.content =
          some (Reference.trimmed stackedScript ++ Reference.comment ⟨"/a.js"⟩ url) := by
  have script : Reference.isStyleSheet ⟨"/a.js"⟩ = false := rfl
  have line : Reference.IsSingleLine "a.js.map" := ⟨by decide, by decide⟩
  have other : Reference.IsSingleLine "é b" := ⟨by decide, by decide⟩
  obtain ⟨once, often, emits⟩ := script_rewriting_is_stable script stackedScript
  obtain ⟨emit, map, emitted, mapped, same⟩ : ∃ emit map, (stacked.emit none {}).2 = .ok emit ∧
      emit.map = some map ∧ emit.target = ⟨"/a.js"⟩ :=
    ⟨_, _, rfl, rfl, by decide +kernel⟩
  obtain ⟨url, written⟩ := emits stacked none {} emit map "a.js.map" line rfl emitted same mapped
  have lines : ∀ url ∈ "a.js.map" :: ["é b"] ++ ["a.js.map"], Reference.IsSingleLine url := by
    intro url member
    rcases List.mem_cons.1 member with rfl | member
    · exact line
    rcases List.mem_cons.1 member with rfl | member
    · exact other
    rw [List.mem_singleton.1 member]
    exact line
  exact ⟨script, line, once _ line, often _ ["é b"] _ lines,
    emit, map, url, emitted, mapped, written⟩

end MapChain.Chain
