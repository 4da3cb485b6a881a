import MapChain.Base64
import MapChain.Json
import MapChain.Text.Coding

/-!
How long what is read may be: bytes are no more than their digits, a text is no longer than its
bytes. Main statement: no text in a JSON value is longer than the text of the value.
-/

set_option autoImplicit false

namespace MapChain

theorem Utf8.length_le_encode (text : List Char) : text.length ≤ (encode text).length := by
  induction text with
  | nil => exact Nat.le_refl 0
  | cons char text induction =>
      have filled := Char.utf8Size_pos char
      rw [encode_cons, List.length_append, List.length_cons, String.length_utf8EncodeChar]
      omega

theorem Utf8.encode_of_decode {bytes : List UInt8} {text : List Char}
    (decoded : decode bytes = some text) : encode text = bytes := by
  obtain ⟨shown, valid, rfl⟩ := Option.map_eq_some_iff.1 decoded
  rw [String.fromUTF8?] at valid
  split at valid
  · cases valid
    have same : (encode (String.fromUTF8 bytes.toByteArray ‹_›).toList).toByteArray =
        bytes.toByteArray := by
      change (String.ofList _).toByteArray = _
      rw [String.ofList_toList]
      rfl
    exact List.toByteArray_inj.1 same
  · cases valid

theorem Utf8.length_le_of_decode {bytes : List UInt8} {text : List Char}
    (decoded : decode bytes = some text) : text.length ≤ bytes.length := by
  rw [← encode_of_decode decoded]
  exact length_le_encode text

theorem Base64.length_le_of_decode {text : List Char} {bytes : List UInt8}
    (decoded : decode text = some bytes) : bytes.length ≤ text.length := by
  induction text using Base64.decode.induct generalizing bytes with
  | case1 =>
      cases decoded
      exact Nat.le_refl 0
  | case2 first second =>
      rw [decode] at decoded
      obtain ⟨number, -, filled⟩ := Option.bind_eq_some_iff.1 decoded
      split at filled
      · cases filled
        simp
      · cases filled
  | case3 first second third single =>
      rw [decode] at decoded
      · obtain ⟨number, -, filled⟩ := Option.bind_eq_some_iff.1 decoded
        split at filled
        · cases filled
          simp
        · cases filled
      · exact single
  | case4 first second third fourth rest two one induction =>
      rw [decode] at decoded
      · obtain ⟨number, -, others⟩ := Option.bind_eq_some_iff.1 decoded
        obtain ⟨more, read, whole⟩ := Option.bind_eq_some_iff.1 others
        cases whole
        have fewer := induction read
        simp only [List.length_cons]
        omega
      · exact two
      · exact one
  | case5 text nothing two one more =>
      rw [decode] at decoded
      · cases decoded
      · exact nothing
      · exact two
      · exact one
      · exact more

namespace Json

/-- A text stands somewhere in a value, other than as a key. -/
inductive Carries : Json → String → Prop where
  | string (text : String) : Carries (.string (some text)) text
  | item {items : List Json} {item : Json} {text : String} (member : item ∈ items)
      (carries : Carries item text) : Carries (.array items) text
  | member {members : List (Option String × Json)} {member : Option String × Json} {text : String}
      (inside : member ∈ members) (carries : Carries member.2 text) :
      Carries (.object members) text

def Fits (text : List Char) (read : Option (List Char)) (rest : List Char) : Prop :=
  rest.length < text.length ∧ ∀ chars, read = some chars → chars.length ≤ text.length

theorem fits_prepend {text inner rest : List Char} {read : Option (List Char)} {char : Option Char}
    {result : Option (Option (List Char) × List Char)}
    (shown : prepend char result = some (read, rest))
    (fits : ∀ read rest, result = some (read, rest) → Fits inner read rest)
    (shorter : inner.length < text.length) : Fits text read rest := by
  obtain ⟨⟨before, after⟩, known, same⟩ := Option.map_eq_some_iff.1 shown
  cases same
  obtain ⟨fewer, bounded⟩ := fits before rest known
  refine ⟨Nat.lt_trans fewer shorter, ?_⟩
  intro chars whole
  obtain ⟨first, -, others⟩ := Option.bind_eq_some_iff.1 whole
  obtain ⟨tail, there, rfl⟩ := Option.map_eq_some_iff.1 others
  have bound := bounded tail there
  rw [List.length_cons]
  omega

theorem fits_read_string {pending : Option Nat} {text rest : List Char}
    {read : Option (List Char)} (shown : readString pending text = some (read, rest)) :
    Fits text read rest := by
  induction pending, text using readString.induct generalizing read rest with
  | case1 => cases shown
  | case2 pending rest =>
      cases shown
      refine ⟨Nat.lt_succ_self _, ?_⟩
      intro chars same
      split at same
      · cases same
        exact Nat.zero_le _
      · cases same
  | case3 pending first second third fourth rest absent =>
      simp only [readString, absent] at shown
      cases shown
  | case4 pending first second third fourth rest unit found high bare induction =>
      simp only [readString, found, high, bare, if_true] at shown
      obtain ⟨fewer, bounded⟩ := induction shown
      refine ⟨by simp only [List.length_cons]; omega, ?_⟩
      intro chars same
      have bound := bounded chars same
      simp only [List.length_cons]
      omega
  | case5 pending first second third fourth rest unit found high some induction =>
      simp only [readString, found, high, some, if_true] at shown
      exact fits_prepend shown (fun _ _ => induction) (by simp only [List.length_cons]; omega)
  | case6 pending first second third fourth rest unit found high low induction =>
      simp only [readString, found, high, low, if_true] at shown
      exact fits_prepend shown (fun _ _ => induction) (by simp only [List.length_cons]; omega)
  | case7 pending first second third fourth rest unit found high low induction =>
      simp only [readString, found, high, low] at shown
      exact fits_prepend shown (fun _ _ => induction) (by simp only [List.length_cons]; omega)
  | case8 pending char rest plain absent =>
      rw [readString] at shown
      · simp only [absent] at shown
        cases shown
      · exact plain
  | case9 pending char rest plain mark found induction =>
      rw [readString] at shown
      · simp only [found] at shown
        exact fits_prepend shown (fun _ _ => induction) (by simp only [List.length_cons]; omega)
      · exact plain
  | case10 pending char rest quote unit mark wrong =>
      rw [readString] at shown
      · rw [if_pos wrong] at shown
        cases shown
      · exact quote
      · exact unit
      · exact mark
  | case11 pending char rest quote unit mark plain induction =>
      rw [readString] at shown
      · rw [if_neg plain] at shown
        exact fits_prepend shown (fun _ _ => induction) (by simp only [List.length_cons]; omega)
      · exact quote
      · exact unit
      · exact mark

structure Within (text : List Char) (values : List Json) (rest : List Char) : Prop where
  rest : rest.length ≤ text.length
  carried : ∀ value ∈ values, ∀ string, value.Carries string → string.toList.length ≤ text.length

variable {text inner rest last : List Char} {values more : List Json}

theorem Within.mono (within : Within inner values rest) (shorter : inner.length ≤ text.length) :
    Within text values rest where
  rest := Nat.le_trans within.rest shorter
  carried := fun value member string carries =>
    Nat.le_trans (within.carried value member string carries) shorter

theorem Within.append (first : Within text values rest) (second : Within rest more last) :
    Within text (values ++ more) last where
  rest := Nat.le_trans second.rest first.rest
  carried := by
    intro value member string carries
    rcases List.mem_append.1 member with early | late
    · exact first.carried value early string carries
    · exact Nat.le_trans (second.carried value late string carries) first.rest

theorem within_of_bare {value : Json} (bare : ∀ string, ¬value.Carries string)
    (shorter : rest.length ≤ text.length) : Within text [value] rest where
  rest := shorter
  carried := by
    intro other member string carries
    rw [List.mem_singleton] at member
    rw [member] at carries
    exact absurd carries (bare string)

theorem Within.array (within : Within text values rest) : Within text [.array values] rest where
  rest := within.rest
  carried := by
    intro value member string carries
    rw [List.mem_singleton] at member
    rw [member] at carries
    cases carries with
    | item inside carried => exact within.carried _ inside string carried

theorem Within.object {members : List (Option String × Json)}
    (within : Within text (members.map (·.2)) rest) : Within text [.object members] rest where
  rest := within.rest
  carried := by
    intro value member string carries
    rw [List.mem_singleton] at member
    rw [member] at carries
    cases carries with
    | member inside carried =>
        exact within.carried _ (List.mem_map_of_mem inside) string carried

theorem length_skip_blank (text : List Char) : (skipBlank text).length ≤ text.length :=
  (List.dropWhile_suffix _).length_le

theorem within_word {value : Json} (word : List Char) (opened : skipBlank text = word ++ rest)
    (bare : ∀ string, ¬value.Carries string) : Within text [value] rest := by
  have blank := length_skip_blank text
  rw [opened, List.length_append] at blank
  exact within_of_bare bare (Nat.le_of_add_left_le blank)

theorem length_read_digits {digits : List Char} (shown : readDigits text = some (digits, rest)) :
    rest.length ≤ text.length := by
  unfold readDigits at shown
  split at shown
  · cases shown
  · cases shown
    exact (List.dropWhile_suffix _).length_le

theorem length_read_whole {digits : List Char} (shown : readWhole text = some (digits, rest)) :
    rest.length ≤ text.length := by
  unfold readWhole at shown
  split at shown
  · cases shown
  · exact length_read_digits shown

theorem length_read_fraction {digits : List Char}
    (shown : readFraction text = some (digits, rest)) : rest.length ≤ text.length := by
  unfold readFraction at shown
  split at shown
  next after =>
    obtain ⟨⟨digits, rest⟩, known, same⟩ := Option.map_eq_some_iff.1 shown
    cases same
    have shorter := length_read_digits known
    rw [List.length_cons]
    omega
  next =>
    cases shown
    exact Nat.le_refl _

theorem length_read_exponent {digits : List Char}
    (shown : readExponent text = some (digits, rest)) : rest.length ≤ text.length := by
  unfold readExponent at shown
  split at shown
  next mark after =>
    split at shown
    · obtain ⟨⟨digits, rest⟩, known, same⟩ := Option.map_eq_some_iff.1 shown
      cases same
      have shorter := length_read_digits known
      rw [List.length_cons]
      split at shorter <;> simp only [List.length_cons] at shorter ⊢ <;> omega
    · cases shown
      exact Nat.le_refl _
  next =>
    cases shown
    exact Nat.le_refl _

theorem within_read_number {value : Json} (shown : readNumber text = some (value, rest)) :
    Within text [value] rest := by
  unfold readNumber at shown
  obtain ⟨⟨whole, afterWhole⟩, one, shown⟩ := Option.bind_eq_some_iff.1 shown
  obtain ⟨⟨fraction, afterFraction⟩, two, shown⟩ := Option.bind_eq_some_iff.1 shown
  obtain ⟨⟨exponent, afterExponent⟩, three, shown⟩ := Option.bind_eq_some_iff.1 shown
  cases shown
  have first := length_read_whole one
  have second := length_read_fraction two
  have third := length_read_exponent three
  apply within_of_bare
  · intro string carries
    cases carries
  · split at first <;> simp only [List.length_cons] at first ⊢ <;> omega

theorem length_read_key {key : Option String} (shown : readKey text = some (key, rest)) :
    rest.length ≤ text.length := by
  unfold readKey at shown
  have blank := length_skip_blank text
  split at shown
  next inner opened =>
    obtain ⟨⟨read, after⟩, known, found⟩ := Option.bind_eq_some_iff.1 shown
    obtain ⟨fewer, -⟩ := fits_read_string known
    have between := length_skip_blank after
    dsimp only at found
    split at found
    next colon =>
      cases found
      rw [opened, List.length_cons] at blank
      rw [colon, List.length_cons] at between
      omega
    next => cases found
  next => cases shown

/-- What each reader gives is within its text, given that as much is known for fewer steps. -/
structure ReadsWithin (steps : Nat) : Prop where
  value : ∀ {text rest value}, readValue steps text = some (value, rest) →
    Within text [value] rest
  items : ∀ {text rest items}, readItems steps text = some (items, rest) → Within text items rest
  members : ∀ {text rest members}, readMembers steps text = some (members, rest) →
    Within text (members.map (·.2)) rest

variable {steps : Nat}

theorem ReadsWithin.value_succ (reads : ReadsWithin steps) {value : Json}
    (shown : readValue (steps + 1) text = some (value, rest)) : Within text [value] rest := by
  have blank := length_skip_blank text
  simp only [readValue] at shown
  split at shown
  next inner opened =>
    obtain ⟨⟨read, after⟩, known, same⟩ := Option.bind_eq_some_iff.1 shown
    change some (Json.string (read.map String.ofList), after) = some (value, rest) at same
    cases same
    obtain ⟨fewer, bounded⟩ := fits_read_string known
    rw [opened, List.length_cons] at blank
    refine ⟨by omega, ?_⟩
    intro value member string carries
    rw [List.mem_singleton] at member
    rw [member] at carries
    cases whole : read with
    | none =>
        rw [whole] at carries
        cases carries
    | some chars =>
        rw [whole] at carries
        cases carries
        have bound := bounded chars whole
        rw [String.toList_ofList]
        omega
  next inner opened =>
    have between := length_skip_blank inner
    rw [opened, List.length_cons] at blank
    split at shown
    next closed =>
      cases shown
      rw [closed, List.length_cons] at between
      exact Within.array ⟨by omega, by simp⟩
    next =>
      obtain ⟨⟨items, after⟩, known, same⟩ := Option.bind_eq_some_iff.1 shown
      cases same
      exact (reads.items known).array.mono (by omega)
  next inner opened =>
    have between := length_skip_blank inner
    rw [opened, List.length_cons] at blank
    split at shown
    next closed =>
      cases shown
      rw [closed, List.length_cons] at between
      exact Within.object ⟨by omega, by simp⟩
    next =>
      obtain ⟨⟨members, after⟩, known, same⟩ := Option.bind_eq_some_iff.1 shown
      cases same
      exact (reads.members known).object.mono (by omega)
  next inner opened =>
    cases shown
    exact within_word ['n', 'u', 'l', 'l'] opened (by rintro string ⟨⟩)
  next inner opened =>
    cases shown
    exact within_word ['t', 'r', 'u', 'e'] opened (by rintro string ⟨⟩)
  next inner opened =>
    cases shown
    exact within_word ['f', 'a', 'l', 's', 'e'] opened (by rintro string ⟨⟩)
  next => exact (within_read_number shown).mono blank

theorem ReadsWithin.items_succ (reads : ReadsWithin steps) {items : List Json}
    (shown : readItems (steps + 1) text = some (items, rest)) : Within text items rest := by
  simp only [readItems] at shown
  obtain ⟨⟨item, after⟩, known, found⟩ := Option.bind_eq_some_iff.1 shown
  have first := reads.value known
  have between := length_skip_blank after
  dsimp only at found
  split at found
  next inner comma =>
    obtain ⟨⟨others, last⟩, read, same⟩ := Option.bind_eq_some_iff.1 found
    cases same
    rw [comma, List.length_cons] at between
    exact first.append ((reads.items read).mono (by omega))
  next closed =>
    cases found
    rw [closed, List.length_cons] at between
    exact ⟨Nat.le_trans (by omega) first.rest, first.carried⟩
  next => cases found

theorem ReadsWithin.members_succ (reads : ReadsWithin steps)
    {members : List (Option String × Json)}
    (shown : readMembers (steps + 1) text = some (members, rest)) :
    Within text (members.map (·.2)) rest := by
  simp only [readMembers] at shown
  obtain ⟨⟨key, middle⟩, keyed, shown⟩ := Option.bind_eq_some_iff.1 shown
  obtain ⟨⟨value, after⟩, known, found⟩ := Option.bind_eq_some_iff.1 shown
  have first := (reads.value known).mono (length_read_key keyed)
  have between := length_skip_blank after
  dsimp only at found
  split at found
  next inner comma =>
    obtain ⟨⟨others, last⟩, read, same⟩ := Option.bind_eq_some_iff.1 found
    cases same
    rw [comma, List.length_cons] at between
    exact first.append ((reads.members read).mono (by omega))
  next closed =>
    cases found
    rw [closed, List.length_cons] at between
    exact ⟨Nat.le_trans (by omega) first.rest, first.carried⟩
  next => cases found

theorem reads_within (steps : Nat) : ReadsWithin steps := by
  induction steps with
  | zero =>
      refine ⟨?_, ?_, ?_⟩
      · intro text rest value shown
        cases shown
      · intro text rest items shown
        cases shown
      · intro text rest members shown
        cases shown
  | succ steps reads => exact ⟨reads.value_succ, reads.items_succ, reads.members_succ⟩

theorem length_le_of_parse {text : String} {value : Json} {string : String}
    (parsed : parse text = some value) (carries : value.Carries string) :
    string.toList.length ≤ text.toList.length := by
  unfold parse at parsed
  dsimp only at parsed
  split at parsed
  next read rest shown =>
    split at parsed
    · cases parsed
      exact ((reads_within _).value shown).carried _ List.mem_cons_self string carries
    · cases parsed
  next => cases parsed

end Json

end MapChain
