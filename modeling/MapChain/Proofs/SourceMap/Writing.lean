import MapChain.Proofs.Base64.Reading
import MapChain.Proofs.Json.Printing
import MapChain.Session.Fetch

/-!
Maps that are written and read again. Main statement: the text of a map, with or without a guard in
front, and the URL that carries a map are read as that map, unless its version is not supported.
-/

set_option autoImplicit false

namespace MapChain

theorem Blank.trim_end_of_visible {text : List Char}
    (visible : ∀ char ∈ text, isBlank char = false) : trimEnd text = text := by
  have kept : text.reverse.dropWhile isBlank = text.reverse := by
    cases reversed : text.reverse with
    | nil => rfl
    | cons last before =>
        have member : last ∈ text := by
          rw [← List.mem_reverse, reversed]
          exact List.mem_cons_self
        rw [List.dropWhile_cons_of_neg]
        simp [visible last member]
  rw [trimEnd, kept, List.reverse_reverse]

namespace SourceMap

variable {map : SourceMap}

theorem as_optional_optional_json (text : Option String) :
    asOptional? (optionalJson text) = some text := by
  cases text <;> rfl

theorem as_list_map {Item : Type} {asItem? : Json → Option Item} (json : Item → Json)
    (read : ∀ item, asItem? (json item) = some item) (items : List Item) :
    asList? asItem? (.array (items.map json)) = some items := by
  rw [asList?, List.mapM_map]
  induction items with
  | nil => rfl
  | cons item items induction =>
      simp only [Function.comp_def, read] at induction ⊢
      rw [List.mapM_cons, induction]
      rfl

theorem as_version_number (version : UInt32) :
    asVersion? (.number (toString version.toNat)) = some version := by
  have digits : (Nat.toDigits 10 version.toNat).all Char.isDigit = true := by
    rw [List.all_eq_true]
    exact fun char member => Nat.isDigit_of_mem_toDigits (by decide) (by decide) member
  have value : (Nat.toDigits 10 version.toNat).foldl
      (fun number digit => 10 * number + (digit.toNat - 48)) 0 = version.toNat := by
    have sum := Nat.ofDigitChars_ten_toDigits (n := version.toNat)
    rwa [Nat.ofDigitChars_eq_foldl] at sum
  have small : version.toNat < UInt32.size := version.toNat_lt
  rw [asVersion?, Nat.toString_eq_ofList_toDigits, String.toList_ofList]
  dsimp only
  rw [if_pos digits, value, if_pos small, UInt32.ofNat_toNat]

/-- Every value of a map stands under its key, once, and what the map has not is left out. -/
theorem of_json_to_json (map : SourceMap) : ofJson? map.toJson = some map := by
  obtain ⟨version, file, sources, contents, names, mappings, sourceRoot⟩ := map
  have readVersion := as_version_number version
  have readSources := as_list_map optionalJson as_optional_optional_json sources
  have readContents := as_list_map optionalJson as_optional_optional_json contents
  have readNames : asList? asText? (.array (names.map textJson)) = some names :=
    as_list_map textJson (fun _ => rfl) names
  rw [Nat.toString_eq_repr] at readVersion
  cases file <;> cases sourceRoot <;>
    simp [ofJson?, toJson, optionalMember, members?, member?, textJson, asText?, asOptional?,
      readVersion, readSources, readContents, readNames]

theorem is_whole_optionals (texts : List (Option String)) :
    (Json.array (texts.map optionalJson)).IsWhole := by
  apply Json.IsWhole.array
  intro item member
  obtain ⟨text, -, rfl⟩ := List.mem_map.1 member
  cases text with
  | none => exact .null
  | some text => exact .string (some text)

theorem is_whole_texts (texts : List String) : (Json.array (texts.map textJson)).IsWhole := by
  apply Json.IsWhole.array
  intro item member
  obtain ⟨text, -, rfl⟩ := List.mem_map.1 member
  exact .string (some text)

theorem is_whole_optional_member {key : String} {text : Option String}
    {member : Option String × Json} (inside : member ∈ optionalMember key text) :
    member.2.IsWhole := by
  cases text with
  | none => cases inside
  | some text =>
      rw [optionalMember, List.mem_singleton] at inside
      rw [inside]
      exact .string (some text)

theorem is_whole_to_json (map : SourceMap) : map.toJson.IsWhole := by
  apply Json.IsWhole.object
  intro member inside
  simp only [List.mem_append, List.mem_cons, List.not_mem_nil, or_false] at inside
  rcases inside with ((rfl | file) | rfl | rfl | rfl | rfl) | sourceRoot
  · exact .number _
  · exact is_whole_optional_member file
  · exact is_whole_optionals _
  · exact is_whole_optionals _
  · exact is_whole_texts _
  · exact .string _
  · exact is_whole_optional_member sourceRoot

theorem json_text_opened (map : SourceMap) :
    ∃ inside, map.jsonText.toList = '\x7b' :: inside := by
  refine ⟨map.toJson.print.tail, ?_⟩
  rw [jsonText, String.toList_ofList]
  rfl

theorem parse_of_without_guard {text : String} (bare : withoutGuard text = map.jsonText) :
    parse text =
      if map.version = currentVersion then .ok map
      else .error (.unsupportedVersion map.version) := by
  rw [parse, bare, jsonText, Json.parse_print map.is_whole_to_json, Option.bind_some,
    of_json_to_json]

theorem without_guard_json_text (map : SourceMap) : withoutGuard map.jsonText = map.jsonText := by
  obtain ⟨inside, opened⟩ := map.json_text_opened
  have unguarded : Search.after? [')', ']', '\x7d', '\''] map.jsonText.toList = none := by
    rw [opened]
    rfl
  rw [withoutGuard, unguarded]

theorem without_guard_guarded {line : String} (single : '\n' ∉ line.toList) (text : String) :
    withoutGuard (")]\x7d'" ++ line ++ "\n" ++ text) = text := by
  have chars : (")]\x7d'" ++ line ++ "\n" ++ text).toList =
      [')', ']', '\x7d', '\''] ++ (line.toList ++ '\n' :: text.toList) := by
    simp
  have passed : (line.toList ++ '\n' :: text.toList).dropWhile (· ≠ '\n') =
      '\n' :: text.toList := by
    rw [List.dropWhile_append_of_pos, List.dropWhile_cons_of_neg]
    · simp
    · intro char member
      have other : char ≠ '\n' := by
        rintro rfl
        exact single member
      simp [other]
  rw [withoutGuard, chars, Search.after_append]
  simp only [passed, String.ofList_toList]

def urlDigits (map : SourceMap) : List Char :=
  Base64.encode (Utf8.encode map.jsonText.toList)

theorem to_url_chars (map : SourceMap) :
    map.toUrl.toList = Reference.dataHead.toList ++ map.urlDigits := by
  rw [toUrl, String.toList_append, String.toList_ofList]
  rfl

theorem is_blank_of_is_written {char : Char} (written : Base64.IsWritten char) :
    Blank.isBlank char = false := by
  rcases written with rfl | ⟨value, small, rfl⟩
  · rfl
  · have all : ∀ digit : Fin 64, Blank.isBlank (Base64.digitChar digit) = false := by decide
    exact all ⟨value, small⟩

theorem is_blank_of_mem_digits {char : Char} (member : char ∈ map.urlDigits) :
    Blank.isBlank char = false := is_blank_of_is_written (Base64.is_written_of_mem member)

theorem decode_url_digits (map : SourceMap) :
    Base64.decode map.urlDigits = some (Utf8.encode map.jsonText.toList) :=
  Base64.decode_encode _

theorem url_digits_ne_nil (map : SourceMap) : map.urlDigits ≠ [] := by
  obtain ⟨inside, opened⟩ := map.json_text_opened
  intro empty
  have read := map.decode_url_digits
  rw [empty, opened, Utf8.encode_cons] at read
  cases read

theorem payload_data_head {text : List Char} (filled : text ≠ []) (single : '\n' ∉ text) :
    payload? (Reference.dataHead.toList ++ text) = some text := by
  have found : payload? (Reference.dataHead.toList ++ text) =
      if text ≠ [] ∧ '\n' ∉ text then some text else payload? ("ase64,".toList ++ text) := rfl
  rw [found, if_pos ⟨filled, single⟩]

theorem of_url_to_url (map : SourceMap) : ofUrl map.toUrl = parse map.jsonText := by
  have marked : payload? map.toUrl.toList = some map.urlDigits := by
    rw [to_url_chars]
    apply payload_data_head map.url_digits_ne_nil
    intro member
    cases is_blank_of_mem_digits member
  have trimmed : Blank.trimEnd map.urlDigits = map.urlDigits :=
    Blank.trim_end_of_visible fun char member => is_blank_of_mem_digits member
  rw [ofUrl, marked]
  simp only [trimmed, decode_url_digits, Utf8.decode_encode, String.ofList_toList]

theorem is_data_url_to_url (map : SourceMap) : Reference.isDataUrl map.toUrl = true := by
  rw [Reference.isDataUrl, to_url_chars]
  rfl

/-- A text whose reference is the URL of a map holds that map, if the URL is read as one. -/
theorem map_reference_of_to_url {content : String}
    (found : Reference.findUrl? content = some map.toUrl) (directory : Path)
    (origin : Option Path) :
    mapReference directory origin content =
      match parse map.jsonText with
      | .ok map => .ok (some (.inline map))
      | .error fault =>
          .error (.invalidSourceMap ("data URI in " ++ originLabel origin) fault) := by
  rw [← of_url_to_url, mapReference, found]
  dsimp only
  rw [map.is_data_url_to_url]
  generalize ofUrl map.toUrl = outcome
  rfl

/-- However a map is written, it is read as the same map, or refused for its version. -/
theorem written_maps_read_back (map : SourceMap) {line : String} (single : '\n' ∉ line.toList) :
    (map.version = currentVersion →
      parse map.jsonText = .ok map ∧
        parse (")]\x7d'" ++ line ++ "\n" ++ map.jsonText) = .ok map ∧
        ofUrl map.toUrl = .ok map ∧
        ∀ directory origin content, Reference.findUrl? content = some map.toUrl →
          mapReference directory origin content = .ok (some (.inline map))) ∧
      (map.version ≠ currentVersion →
        parse map.jsonText = .error (.unsupportedVersion map.version) ∧
          parse (")]\x7d'" ++ line ++ "\n" ++ map.jsonText) =
            .error (.unsupportedVersion map.version) ∧
          ofUrl map.toUrl = .error (.unsupportedVersion map.version) ∧
          ∀ directory origin content, Reference.findUrl? content = some map.toUrl →
            mapReference directory origin content =
              .error (.invalidSourceMap ("data URI in " ++ originLabel origin)
                (.unsupportedVersion map.version))) := by
  have plain := parse_of_without_guard map.without_guard_json_text
  have guarded := parse_of_without_guard (without_guard_guarded single map.jsonText)
  constructor
  · intro supported
    rw [if_pos supported] at plain guarded
    refine ⟨plain, guarded, map.of_url_to_url.trans plain, ?_⟩
    intro directory origin content found
    rw [map_reference_of_to_url found, plain]
  · intro unsupported
    rw [if_neg unsupported] at plain guarded
    refine ⟨plain, guarded, map.of_url_to_url.trans plain, ?_⟩
    intro directory origin content found
    rw [map_reference_of_to_url found, plain]

/-- Texts that JSON escapes, entries that are absent, and lists of different lengths. -/
def escaping : SourceMap :=
  ⟨3, some "a\"\\\n\x01.js", [some "é/\u2028", none, some ""], [none], ["𝄞", ""], "AAAA;", none⟩

theorem escaping_reads_back :
    '\n' ∉ " xssi".toList ∧ escaping.version = currentVersion ∧
      parse escaping.jsonText = .ok escaping ∧
      parse (")]\x7d'" ++ " xssi" ++ "\n" ++ escaping.jsonText) = .ok escaping ∧
      ofUrl escaping.toUrl = .ok escaping ∧
      ofUrl ({ escaping with version := 4 }).toUrl = .error (.unsupportedVersion 4) := by
  have single : '\n' ∉ " xssi".toList := by decide
  have supported : escaping.version = currentVersion := rfl
  obtain ⟨plain, guarded, url, -⟩ := (written_maps_read_back escaping single).1 supported
  have other : ({ escaping with version := 4 } : SourceMap).version ≠ currentVersion := by decide
  obtain ⟨-, -, refused, -⟩ := (written_maps_read_back _ single).2 other
  exact ⟨single, supported, plain, guarded, url, refused⟩

end SourceMap

end MapChain
