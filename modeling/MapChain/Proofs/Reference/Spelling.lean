import MapChain.Proofs.Reference.Coding

/-!
How coded URLs are spelled. Main statement: a URL that carries no map is written with kept
characters and with percent signs that two hexadecimal digits follow, and whatever it holds, it is
read back from them.
-/

set_option autoImplicit false

namespace MapChain.Reference

variable {char : Char} {chars more : List Char} {url : String}

/-- A text of kept characters, and of percent signs with two hexadecimal digits behind each. A
percent sign itself is not kept. -/
inductive IsSpelled : List Char → Prop where
  | nil : IsSpelled []
  | kept {char : Char} {chars : List Char} (kept : isKept char = true) (spelled : IsSpelled chars) :
      IsSpelled (char :: chars)
  | byte {high low : Char} {chars : List Char} (first : high ∈ hexDigits)
      (second : low ∈ hexDigits) (spelled : IsSpelled chars) :
      IsSpelled ('%' :: high :: low :: chars)

theorem is_spelled_append (spelled : IsSpelled chars) (rest : IsSpelled more) :
    IsSpelled (chars ++ more) := by
  induction spelled with
  | nil => exact rest
  | kept kept _ induction => exact .kept kept induction
  | byte first second _ induction => exact .byte first second induction

theorem is_spelled_flat_map {Item : Type} {code : Item → List Char} (items : List Item)
    (each : ∀ item, IsSpelled (code item)) : IsSpelled (items.flatMap code) := by
  induction items with
  | nil => exact .nil
  | cons item items induction => exact is_spelled_append (each item) induction

theorem is_spelled_encode_byte (byte : UInt8) : IsSpelled (Percent.encodeByte byte) := by
  have bounded := byte.toNat_lt
  exact .byte (hex_digit_mem (by omega)) (hex_digit_mem (by omega)) .nil

theorem is_spelled_encode_url_char (char : Char) : IsSpelled (encodeUrlChar char) := by
  cases kept : isKept char with
  | true =>
      rw [encode_url_char_of_kept kept]
      exact .kept kept .nil
  | false =>
      rw [encode_url_char_of_coded kept]
      exact is_spelled_flat_map _ is_spelled_encode_byte

theorem is_spelled_encode_url (coded : IsCoded url) : IsSpelled (encodeUrl url).toList := by
  rw [encode_url_of_coded coded]
  exact is_spelled_flat_map _ is_spelled_encode_url_char

theorem kept_of_hex_digit (digit : char ∈ hexDigits) : isKept char = true := by
  have all : hexDigits.all isKept = true := by decide
  exact List.all_eq_true.1 all char digit

theorem kept_or_percent_of_spelled (spelled : IsSpelled chars) (member : char ∈ chars) :
    isKept char = true ∨ char = '%' := by
  induction spelled with
  | nil => cases member
  | kept kept _ induction =>
      rcases List.mem_cons.1 member with rfl | later
      · exact Or.inl kept
      · exact induction later
  | byte first second _ induction =>
      rcases List.mem_cons.1 member with rfl | member
      · exact Or.inr rfl
      rcases List.mem_cons.1 member with rfl | member
      · exact Or.inl (kept_of_hex_digit first)
      rcases List.mem_cons.1 member with rfl | later
      · exact Or.inl (kept_of_hex_digit second)
      · exact induction later

theorem lt_of_spelled (spelled : IsSpelled chars) (member : char ∈ chars) : char.toNat < 128 := by
  rcases kept_or_percent_of_spelled spelled member with kept | rfl
  · exact lt_of_kept kept
  · decide

/-- Coding takes no kept character away and adds none but digits. -/
theorem mem_encode_url_iff (coded : IsCoded url) (kept : isKept char = true)
    (plain : char ∉ hexDigits) : char ∈ (encodeUrl url).toList ↔ char ∈ url.toList := by
  rw [encode_url_of_coded coded, List.mem_flatMap]
  constructor
  · rintro ⟨own, member, inside⟩
    cases stays : isKept own with
    | true =>
        rw [encode_url_char_of_kept stays, List.mem_singleton] at inside
        exact inside ▸ member
    | false =>
        rw [encode_url_char_of_coded stays] at inside
        obtain ⟨byte, -, inside⟩ := List.mem_flatMap.1 inside
        rcases percent_or_hex_digit_of_mem inside with rfl | digit
        · exact absurd kept (by decide)
        · exact absurd digit plain
  · intro member
    refine ⟨char, member, ?_⟩
    rw [encode_url_char_of_kept kept]
    exact List.mem_singleton_self char

/-- A URL that carries no map is spelled with kept ASCII characters and coded bytes, and is what
these are decoded to. -/
theorem coded_url_spelled (coded : IsCoded url) :
    decodeUrl (encodeUrl url) = url ∧ IsSpelled (encodeUrl url).toList ∧
      ∀ char ∈ (encodeUrl url).toList, char.toNat < 128 := by
  have spelled := is_spelled_encode_url coded
  exact ⟨decode_url_encode_url coded, spelled, fun _ => lt_of_spelled spelled⟩

/-- Codes in a URL are coded again, and so are bytes of longer characters. -/
theorem mixed_url_spelled :
    IsCoded "data:a+b %41%zé.map" ∧
      decodeUrl (encodeUrl "data:a+b %41%zé.map") = "data:a+b %41%zé.map" ∧
      encodeUrl "data:a+b %41%zé.map" = "data:a+b%20%2541%25z%C3%A9.map" ∧
      IsSpelled "data:a+b%20%2541%25z%C3%A9.map".toList := by
  have coded : IsCoded "data:a+b %41%zé.map" := by
    unfold IsCoded
    decide
  obtain ⟨read, spelled, -⟩ := coded_url_spelled coded
  have shown : encodeUrl "data:a+b %41%zé.map" = "data:a+b%20%2541%25z%C3%A9.map" := by
    decide +kernel
  exact ⟨coded, read, shown, shown ▸ spelled⟩

end MapChain.Reference
