import MapChain.Proofs.Chain.Emitting
import MapChain.Proofs.Reference.Finding
import MapChain.Proofs.SourceMap.Writing

/-!
Maps inside the text that they belong to. No marker begins among the digits of a map: it would have
to end before an equals sign, and so with a digit that leaves no bits unused. Main statement: the
reader finds the map at the end of a text into which it was written.
-/

set_option autoImplicit false

namespace MapChain

namespace SourceMap

theorem unmarked_url_digits (map : SourceMap) : ¬Reference.marker <:+: map.urlDigits := by
  intro inside
  have pair : ['L', '='] <:+: Reference.marker := ⟨"sourceMappingUR".toList, [], rfl⟩
  obtain ⟨front, back, split⟩ := pair.trans inside
  have chain : map.urlDigits.IsChain Base64.Fills := Base64.is_chain_encode _
  rw [← split] at chain
  have fills : Base64.Fills 'L' '=' := List.isChain_pair.1 chain.left_of_append.right_of_append
  rcases fills rfl with equal | ⟨value, small, unused, same⟩
  · cases equal
  · have all : ∀ digit : Fin 64, digit.val % 4 = 0 → 'L' ≠ Base64.digitChar digit := by decide
    exact all ⟨value, small⟩ unused same

theorem is_legible_to_url (map : SourceMap) : Reference.IsLegible map.toUrl.toList where
  filled := by
    rw [to_url_chars]
    simp [map.url_digits_ne_nil]
  visible := by
    intro char member
    rw [to_url_chars] at member
    rcases List.mem_append.1 member with head | digit
    · have visible : Reference.dataHead.toList.all (!Blank.isBlank ·) = true := by decide
      simpa using List.all_eq_true.1 visible char head
    · exact is_blank_of_mem_digits digit
  unmarked := by
    intro inside
    have split : Reference.dataHead.toList =
        "data:application/json;charset=utf-8;base64".toList ++ [','] := by decide
    rw [to_url_chars, split, List.append_assoc, List.singleton_append] at inside
    rcases Search.infix_or_infix_of_append (by decide) inside with head | digits
    · exact Search.after_last_eq_none_iff.1 rfl head
    · exact unmarked_url_digits map digits
  unclosed := by
    intro closed
    have star : '*' ∈ map.toUrl.toList := closed.subset List.mem_cons_self
    rw [to_url_chars] at star
    rcases List.mem_append.1 star with head | digit
    · exact absurd head (by decide)
    · exact Base64.not_is_written (by decide) (by decide) (Base64.is_written_of_mem digit)

theorem encode_url_to_url (map : SourceMap) : Reference.encodeUrl map.toUrl = map.toUrl := by
  apply Reference.encode_url_of_data
  rw [to_url_chars, List.isPrefixOf_iff_prefix]
  exact List.prefix_append _ _

end SourceMap

namespace Chain

variable {chain : Chain} {options : Options} {target : Option Path} {emit : Emit}
  {map : SourceMap} {content : String}

/-- Whatever the root held, its text ends with the map that was put there last. -/
theorem inlined_map_reads_back (inline : options.referenceMode = .inline)
    (emitted : (chain.emit target options).2 = .ok emit)
    (written : emit.content = some content) (mapped : emit.map = some map) :
    Reference.findUrl? content = some map.toUrl ∧ Reference.isDataUrl map.toUrl = true ∧
      SourceMap.ofUrl map.toUrl = .ok map ∧
      ∀ directory origin, mapReference directory origin content = .ok (some (.inline map)) := by
  obtain ⟨file, base, -, -, -, applied, ends⟩ := of_emit emitted
  rw [mapped] at applied
  obtain ⟨text, same⟩ := ends map content mapped written
  have url : referenceUrl chain.directory options.referenceMode map emit.target base =
      map.toUrl := by
    rw [inline]
    rfl
  have legible : Reference.IsLegible (Reference.encodeUrl map.toUrl).toList := by
    rw [map.encode_url_to_url]
    exact map.is_legible_to_url
  have found := Reference.find_url_comment text emit.target legible
  rw [map.encode_url_to_url, ← url, ← same, url] at found
  have plain := SourceMap.parse_of_without_guard map.without_guard_json_text
  rw [if_pos (version_of_apply applied.symm)] at plain
  refine ⟨found, map.is_data_url_to_url, map.of_url_to_url.trans plain, ?_⟩
  intro directory origin
  rw [SourceMap.map_reference_of_to_url found, plain]

theorem restyled_reads_back :
    ∃ emit content map,
      ({ referenceMode := .inline } : Options).referenceMode = .inline ∧
      (restyled.emit (some ⟨"out/b.CSS"⟩) { referenceMode := .inline }).2 = .ok emit ∧
      emit.content = some content ∧ emit.map = some map ∧
      Reference.findUrl? content = some map.toUrl ∧ SourceMap.ofUrl map.toUrl = .ok map ∧
      mapReference ⟨"/"⟩ (some ⟨"/out/b.CSS"⟩) content = .ok (some (.inline map)) := by
  obtain ⟨emit, content, map, emitted, written, mapped⟩ : ∃ emit content map,
      (restyled.emit (some ⟨"out/b.CSS"⟩) { referenceMode := .inline }).2 = .ok emit ∧
        emit.content = some content ∧ emit.map = some map :=
    ⟨_, _, _, rfl, rfl, rfl⟩
  obtain ⟨found, -, read, reference⟩ := inlined_map_reads_back rfl emitted written mapped
  exact ⟨emit, content, map, rfl, emitted, written, mapped, found, read, reference _ _⟩

end Chain

end MapChain
