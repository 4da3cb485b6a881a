import MapChain.Proofs.Json.Reading
import MapChain.Session.Fetch

/-!
Maps inside texts. Nothing that a map says is longer than the text of the map. Main statement: a
text that holds a map in itself is longer than each of the contents in that map.
-/

set_option autoImplicit false

namespace MapChain

theorem mem_of_map_m {Item Value : Type} {read : Item → Option Value} {items : List Item}
    {values : List Value} (mapped : items.mapM read = some values) {value : Value}
    (member : value ∈ values) : ∃ item ∈ items, read item = some value := by
  induction items generalizing values with
  | nil =>
      cases mapped
      cases member
  | cons item items induction =>
      rw [List.mapM_cons] at mapped
      obtain ⟨first, here, mapped⟩ := Option.bind_eq_some_iff.1 mapped
      obtain ⟨others, there, whole⟩ := Option.bind_eq_some_iff.1 mapped
      cases whole
      rcases List.mem_cons.1 member with same | later
      · rw [same]
        exact ⟨item, List.mem_cons_self, here⟩
      · obtain ⟨other, inside, shown⟩ := induction there later
        exact ⟨other, List.mem_cons_of_mem item inside, shown⟩

namespace SourceMap

variable {json : Json} {map : SourceMap} {text : String}

theorem carries_of_member {members : List (String × Json)} (listed : members? json = some members)
    {key : String} {value : Json} (member : (key, value) ∈ members) (carries : value.Carries text) :
    json.Carries text := by
  unfold members? at listed
  split at listed
  next all =>
    obtain ⟨⟨name, other⟩, inside, found⟩ := mem_of_map_m listed member
    obtain ⟨same, -, equal⟩ := Option.map_eq_some_iff.1 found
    cases equal
    exact .member inside carries
  next items =>
    split at listed
    · cases listed
      exact .item (List.of_mem_zip member).2 carries
    · cases listed
  next => cases listed

theorem of_member {Value : Type} {members : List (String × Json)} {key : String}
    {asValue? : Json → Option Value} {fallback : Option Value} {value : Value}
    (found : member? members key asValue? fallback = some value) :
    fallback = some value ∨ ∃ json, (key, json) ∈ members ∧ asValue? json = some value := by
  unfold member? at found
  split at found
  next => exact Or.inl found
  next name json single =>
    have member : (name, json) ∈ members.filter (·.1 = key) := by simp [single]
    obtain ⟨inside, same⟩ := List.mem_filter.1 member
    rw [← of_decide_eq_true same]
    exact Or.inr ⟨json, inside, found⟩
  next => cases found

theorem carries_of_optionals {texts : List (Option String)}
    (listed : asList? asOptional? json = some texts) (member : some text ∈ texts) :
    json.Carries text := by
  unfold asList? at listed
  split at listed
  next items =>
    obtain ⟨item, inside, shown⟩ := mem_of_map_m listed member
    refine .item inside ?_
    unfold asOptional? at shown
    split at shown
    next => cases shown
    next =>
      obtain ⟨own, known, same⟩ := Option.map_eq_some_iff.1 shown
      cases same
      unfold asText? at known
      split at known
      next =>
        rw [known]
        exact .string text
      next => cases known
  next => cases listed

theorem carries_of_content (read : ofJson? json = some map)
    (member : some text ∈ map.sourcesContent) : json.Carries text := by
  unfold ofJson? at read
  obtain ⟨members, listed, read⟩ := Option.bind_eq_some_iff.1 read
  obtain ⟨version, -, read⟩ := Option.bind_eq_some_iff.1 read
  obtain ⟨file, -, read⟩ := Option.bind_eq_some_iff.1 read
  obtain ⟨sources, -, read⟩ := Option.bind_eq_some_iff.1 read
  obtain ⟨contents, found, read⟩ := Option.bind_eq_some_iff.1 read
  obtain ⟨names, -, read⟩ := Option.bind_eq_some_iff.1 read
  obtain ⟨mappings, -, read⟩ := Option.bind_eq_some_iff.1 read
  obtain ⟨sourceRoot, -, read⟩ := Option.bind_eq_some_iff.1 read
  cases read
  rcases of_member found with absent | ⟨value, inside, shown⟩
  · cases absent
    cases member
  · exact carries_of_member listed inside (carries_of_optionals shown member)

theorem length_without_guard (text : String) :
    (withoutGuard text).toList.length ≤ text.toList.length := by
  unfold withoutGuard
  split
  next => exact Nat.le_refl _
  next rest guarded =>
    have whole := Search.eq_append_of_after guarded
    have shorter := (List.dropWhile_suffix (· ≠ '\n') (l := rest)).length_le
    split
    next => exact Nat.le_refl _
    next char body cut =>
      rw [cut, List.length_cons] at shorter
      rw [whole, List.length_append, String.toList_ofList]
      omega

theorem length_le_of_parse (parsed : parse text = .ok map) {content : String}
    (member : some content ∈ map.sourcesContent) :
    content.toList.length ≤ text.toList.length := by
  unfold parse at parsed
  split at parsed
  next => cases parsed
  next own shown =>
    split at parsed
    · cases parsed
      obtain ⟨json, read, found⟩ := Option.bind_eq_some_iff.1 shown
      exact Nat.le_trans (Json.length_le_of_parse read (carries_of_content found member))
        (length_without_guard text)
    · cases parsed

theorem length_payload {chars payload : List Char} (found : payload? chars = some payload) :
    payload.length ≤ chars.length := by
  induction chars with
  | nil => cases found
  | cons char chars induction =>
      have later (onward : payload? chars = some payload) :
          payload.length ≤ (char :: chars).length :=
        Nat.le_succ_of_le (induction onward)
      rw [payload?] at found
      split at found
      next => exact later found
      next rest marked =>
        split at found
        · cases found
          rw [Search.eq_append_of_after marked, List.length_append]
          omega
        · exact later found

theorem length_le_of_url {url : String} (read : ofUrl url = .ok map) {content : String}
    (member : some content ∈ map.sourcesContent) :
    content.toList.length ≤ url.toList.length := by
  unfold ofUrl at read
  split at read
  next => cases read
  next payload marked =>
    split at read
    next => cases read
    next bytes decoded =>
      split at read
      next => cases read
      next inner shown =>
        have trimmed : (Blank.trimEnd payload).length ≤ payload.length := by
          have shorter :=
            (List.dropWhile_suffix Blank.isBlank (l := payload.reverse)).length_le
          simpa [Blank.trimEnd] using shorter
        have first := length_payload marked
        have second := Base64.length_le_of_decode decoded
        have third := Utf8.length_le_of_decode shown
        have fourth := length_le_of_parse read member
        rw [String.toList_ofList] at fourth
        omega

end SourceMap

theorem Reference.length_lt_of_find_url {content url : String}
    (found : findUrl? content = some url) : url.toList.length < content.toList.length := by
  have after {text rest : List Char} (known : Search.afterLast? marker text = some rest) :
      rest.length < text.length := by
    induction text with
    | nil => cases known
    | cons char text induction =>
        rw [Search.afterLast?] at known
        split at known
        next last inner =>
          cases known
          exact Nat.lt_succ_of_lt (induction inner)
        next =>
          rw [Search.eq_append_of_after known, List.length_append]
          exact Nat.lt_add_of_pos_left (by decide)
  unfold findUrl? at found
  split at found
  next => cases found
  next rest known =>
    have shorter := after known
    have word := (List.takeWhile_prefix (fun char => !Blank.isBlank char) (l := rest)).length_le
    dsimp only at found
    split at found
    next closed ended =>
      have whole := congrArg List.length (Search.eq_append_of_after ended)
      rw [List.length_reverse, List.length_append] at whole
      split at found
      · cases found
      · cases found
        rw [String.toList_ofList, List.length_reverse]
        omega
    next =>
      split at found
      · cases found
      · cases found
        rw [String.toList_ofList]
        omega

/-- A text that holds a map in itself is longer than every content in this map. -/
theorem length_lt_of_inline {directory : Path} {origin : Option Path} {text content : String}
    {map : SourceMap} (inline : mapReference directory origin text = .ok (some (.inline map)))
    (member : some content ∈ map.sourcesContent) :
    content.toList.length < text.toList.length := by
  unfold mapReference at inline
  split at inline
  next => cases inline
  next url found =>
    split at inline
    · split at inline
      next own read =>
        cases inline
        exact Nat.lt_of_le_of_lt (SourceMap.length_le_of_url read member)
          (Reference.length_lt_of_find_url found)
      next => cases inline
    · cases inline

end MapChain
