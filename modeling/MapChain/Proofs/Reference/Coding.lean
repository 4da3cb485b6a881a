import MapChain.Proofs.Reference.Finding

/-!
Coded URLs. A character is kept or becomes the percent codes of its bytes, in which there is no
blank, no marker and no end of a comment. Main statements: a coded URL is decoded to what it was,
and it is legible if the URL itself holds no marker and does not end like a block comment.
-/

set_option autoImplicit false

namespace MapChain.Reference

variable {char : Char} {chars word : List Char} {url : String}

def isKept (char : Char) : Bool := reserved.contains char || isUnreserved char

theorem encode_url_char_of_kept (kept : isKept char = true) : encodeUrlChar char = [char] :=
  if_pos kept

theorem encode_url_char_of_coded (coded : isKept char = false) :
    encodeUrlChar char = Percent.encodeChar char := by
  rw [encodeUrlChar, if_neg]
  rw [← isKept, coded]
  exact Bool.false_ne_true

theorem lt_of_is_alphanum (alphanum : char.isAlphanum = true) : char.toNat < 128 := by
  have ranges : char.isAlphanum =
      ((decide (char.val ≥ 'A'.val ∧ char.val ≤ 'Z'.val) ||
          (decide (char.val ≥ 'a'.val) && decide (char.val ≤ 'z'.val))) ||
        (decide (char.val ≥ '0'.val) && decide (char.val ≤ '9'.val))) := rfl
  rw [ranges] at alphanum
  simp only [Bool.or_eq_true, Bool.and_eq_true, decide_eq_true_eq, UInt32.le_iff_toNat_le]
    at alphanum
  rcases alphanum with (⟨-, upper⟩ | ⟨-, lower⟩) | ⟨-, digit⟩
  · exact Nat.lt_of_le_of_lt upper (by decide)
  · exact Nat.lt_of_le_of_lt lower (by decide)
  · exact Nat.lt_of_le_of_lt digit (by decide)

theorem lt_of_kept (kept : isKept char = true) : char.toNat < 128 := by
  unfold isKept at kept
  rw [Bool.or_eq_true] at kept
  rcases kept with punctuation | unreserved
  · have small : reserved.all (·.toNat < 128) = true := by decide
    exact of_decide_eq_true (List.all_eq_true.1 small char (List.contains_iff_mem.1 punctuation))
  · simp only [isUnreserved, Bool.or_eq_true, beq_iff_eq] at unreserved
    rcases unreserved with (((alphanum | rfl) | rfl) | rfl) | rfl
    · exact lt_of_is_alphanum alphanum
    · decide
    · decide
    · decide
    · decide

theorem kept_cases (kept : isKept char = true) :
    Blank.isBlank char = false ∧
      ∃ byte : UInt8, byte ≠ 37 ∧ String.utf8EncodeChar char = [byte] := by
  have all : ∀ code : Fin 128, isKept (Char.ofNat code) = true →
      Blank.isBlank (Char.ofNat code) = false ∧ UInt8.ofNat code ≠ 37 ∧
        String.utf8EncodeChar (Char.ofNat code) = [UInt8.ofNat code] := by
    decide +kernel
  have found := all ⟨char.toNat, lt_of_kept kept⟩
  simp only [Char.ofNat_toNat] at found
  obtain ⟨visible, plain, single⟩ := found kept
  exact ⟨visible, _, plain, single⟩

def hexDigits : List Char := "0123456789ABCDEF".toList

theorem hex_digit_mem {digit : Nat} (small : digit < 16) : Percent.hexDigit digit ∈ hexDigits := by
  have all : ∀ digit : Fin 16, Percent.hexDigit digit ∈ hexDigits := by decide
  exact all ⟨digit, small⟩

theorem percent_or_hex_digit_of_mem {byte : UInt8} (member : char ∈ Percent.encodeByte byte) :
    char = '%' ∨ char ∈ hexDigits := by
  have bounded := byte.toNat_lt
  rcases List.mem_cons.1 member with rfl | member
  · exact Or.inl rfl
  rcases List.mem_cons.1 member with rfl | member
  · exact Or.inr (hex_digit_mem (by omega))
  rw [List.mem_singleton.1 member]
  exact Or.inr (hex_digit_mem (by omega))

/-- The code of a byte has no blanks, and nothing of a marker or the end of a comment. -/
theorem encode_byte_cases {byte : UInt8} (member : char ∈ Percent.encodeByte byte) :
    Blank.isBlank char = false ∧ char ∉ ['s', '/', '*'] := by
  have all : ('%' :: hexDigits).all
      (fun char => !Blank.isBlank char && !(['s', '/', '*'].contains char)) = true := by
    decide
  have shown := List.all_eq_true.1 all char (List.mem_cons.2 (percent_or_hex_digit_of_mem member))
  rw [Bool.and_eq_true, Bool.not_eq_true', Bool.not_eq_true'] at shown
  refine ⟨shown.1, fun inside => ?_⟩
  rw [List.contains_iff_mem.2 inside] at shown
  cases shown.2

theorem encode_char_cases {other : Char} (member : other ∈ Percent.encodeChar char) :
    Blank.isBlank other = false ∧ other ∉ ['s', '/', '*'] := by
  obtain ⟨byte, -, inside⟩ := List.mem_flatMap.1 member
  exact encode_byte_cases inside

theorem encode_char_opened (char : Char) : ∃ rest, Percent.encodeChar char = '%' :: rest := by
  obtain ⟨byte, bytes, shape⟩ :=
    List.exists_cons_of_ne_nil (String.utf8EncodeChar_ne_nil (c := char))
  rw [Percent.encodeChar, shape, List.flatMap_cons]
  exact ⟨_, rfl⟩

theorem decode_bytes_cons {byte : UInt8} (plain : byte ≠ 37) (rest : List UInt8) :
    Percent.decodeBytes (byte :: rest) = byte :: Percent.decodeBytes rest := by
  rw [Percent.decodeBytes]
  intro high low rest same
  exact absurd same plain

theorem decode_bytes_encode_char (char : Char) (rest : List UInt8) :
    Percent.decodeBytes (Utf8.encode (Percent.encodeChar char) ++ rest) =
      String.utf8EncodeChar char ++ Percent.decodeBytes rest := by
  rw [Percent.encodeChar]
  induction String.utf8EncodeChar char with
  | nil => rfl
  | cons byte bytes induction =>
      rw [List.flatMap_cons, Utf8.encode_append, List.append_assoc,
        Percent.decode_bytes_encode_byte, induction, List.cons_append]

theorem decode_bytes_encode_url_char (char : Char) (rest : List UInt8) :
    Percent.decodeBytes (Utf8.encode (encodeUrlChar char) ++ rest) =
      String.utf8EncodeChar char ++ Percent.decodeBytes rest := by
  cases kept : isKept char with
  | true =>
      obtain ⟨-, byte, plain, single⟩ := kept_cases kept
      rw [encode_url_char_of_kept kept, Utf8.encode_cons, single]
      exact decode_bytes_cons plain rest
  | false =>
      rw [encode_url_char_of_coded kept]
      exact decode_bytes_encode_char char rest

theorem decode_bytes_encode_url (chars : List Char) :
    Percent.decodeBytes (Utf8.encode (chars.flatMap encodeUrlChar)) = Utf8.encode chars := by
  induction chars with
  | nil => rfl
  | cons char chars induction =>
      rw [List.flatMap_cons, Utf8.encode_append, decode_bytes_encode_url_char, induction]
      rfl

/-- Only a URL that carries a map is written as it is. -/
def IsCoded (url : String) : Prop := ¬dataHead.toList <+: url.toList

theorem encode_url_of_coded (coded : IsCoded url) :
    (encodeUrl url).toList = url.toList.flatMap encodeUrlChar := by
  rw [encodeUrl, if_neg, String.toList_ofList]
  rw [List.isPrefixOf_iff_prefix]
  exact coded

theorem visible_of_mem_encode_url (coded : IsCoded url) (member : char ∈ (encodeUrl url).toList) :
    Blank.isBlank char = false := by
  rw [encode_url_of_coded coded] at member
  obtain ⟨own, -, inside⟩ := List.mem_flatMap.1 member
  cases kept : isKept own with
  | true =>
      rw [encode_url_char_of_kept kept, List.mem_singleton] at inside
      rw [inside]
      exact (kept_cases kept).1
  | false =>
      rw [encode_url_char_of_coded kept] at inside
      exact (encode_char_cases inside).1

theorem decode_url_encode_url (coded : IsCoded url) : decodeUrl (encodeUrl url) = url := by
  rw [decodeUrl, encode_url_of_coded coded, decode_bytes_encode_url, Utf8.decode_encode]
  exact String.ofList_toList

/-- A word begins a coded text only where it begins the text, if no code begins within the word. -/
theorem prefix_of_codes {code : Char → List Char}
    (alone : ∀ char, isKept char = true → code char = [char])
    (foreign : ∀ char, isKept char = false → ∃ first rest, code char = first :: rest ∧ first ∉ word)
    (here : word <+: chars.flatMap code) : word <+: chars := by
  induction word generalizing chars with
  | nil => exact List.nil_prefix
  | cons first word induction =>
      cases chars with
      | nil => cases List.prefix_nil.1 here
      | cons char chars =>
          rw [List.flatMap_cons] at here
          cases kept : isKept char with
          | true =>
              rw [alone char kept, List.singleton_append, List.cons_prefix_cons] at here
              refine List.cons_prefix_cons.2 ⟨here.1, induction ?_ here.2⟩
              intro other coded
              obtain ⟨head, rest, shape, absent⟩ := foreign other coded
              exact ⟨head, rest, shape, fun member => absent (List.mem_cons_of_mem first member)⟩
          | false =>
              obtain ⟨head, rest, shape, absent⟩ := foreign char kept
              rw [shape, List.cons_append, List.cons_prefix_cons] at here
              rw [here.1] at absent
              exact absurd List.mem_cons_self absent

theorem prefix_of_encode_url (plain : '%' ∉ word) (here : word <+: chars.flatMap encodeUrlChar) :
    word <+: chars := by
  apply prefix_of_codes (fun _ => encode_url_char_of_kept) _ here
  intro char coded
  obtain ⟨rest, shape⟩ := encode_char_opened char
  exact ⟨'%', rest, (encode_url_char_of_coded coded).trans shape, plain⟩

theorem marker_infix_of_encode_url (inside : marker <:+: chars.flatMap encodeUrlChar) :
    marker <:+: chars := by
  induction chars with
  | nil => exact inside
  | cons char chars induction =>
      rw [List.infix_cons_iff]
      rw [List.flatMap_cons] at inside
      cases kept : isKept char with
      | true =>
          rw [encode_url_char_of_kept kept, List.singleton_append, List.infix_cons_iff] at inside
          rcases inside with here | later
          · left
            apply prefix_of_encode_url (by decide)
            rw [List.flatMap_cons, encode_url_char_of_kept kept]
            exact here
          · exact Or.inr (induction later)
      | false =>
          have absent : 's' ∉ encodeUrlChar char := by
            rw [encode_url_char_of_coded kept]
            intro member
            exact (encode_char_cases member).2 List.mem_cons_self
          exact Or.inr (induction (Search.infix_of_infix_append absent inside))

theorem marker_infix_encode_url (inside : marker <:+: chars) :
    marker <:+: chars.flatMap encodeUrlChar := by
  have kept : marker.flatMap encodeUrlChar = marker := by decide
  rcases inside with ⟨front, back, rfl⟩
  rw [List.flatMap_append, List.flatMap_append, kept]
  exact List.infix_append _ _ _

/-- Read backwards, a coded text ends a comment only where the text does. -/
theorem closed_of_encode_url (closed : ['*', '/'] <:+ chars.flatMap encodeUrlChar) :
    ['*', '/'] <:+ chars := by
  rw [← List.reverse_prefix] at closed ⊢
  rw [List.reverse_flatMap] at closed
  apply prefix_of_codes _ _ closed
  · intro char kept
    rw [Function.comp_apply, encode_url_char_of_kept kept]
    rfl
  · intro char coded
    rw [Function.comp_apply, encode_url_char_of_coded coded]
    obtain ⟨rest, shape⟩ := encode_char_opened char
    have filled : (Percent.encodeChar char).reverse ≠ [] := by simp [shape]
    obtain ⟨last, before, reversed⟩ := List.exists_cons_of_ne_nil filled
    have member : last ∈ Percent.encodeChar char := by
      rw [← List.mem_reverse, reversed]
      exact List.mem_cons_self
    refine ⟨last, before, reversed, fun inside => (encode_char_cases member).2 ?_⟩
    exact List.mem_cons_of_mem 's' inside

theorem encode_url_ne_nil (coded : IsCoded url) (filled : url ≠ "") :
    (encodeUrl url).toList ≠ [] := by
  intro empty
  have read := decode_url_encode_url coded
  rw [String.toList_eq_nil_iff.1 empty] at read
  exact filled (read.symm.trans (by decide))

theorem is_legible_encode_url (coded : IsCoded url) (filled : url ≠ "")
    (unmarked : ¬marker <:+: url.toList) (unclosed : ¬['*', '/'] <:+ url.toList) :
    IsLegible (encodeUrl url).toList where
  filled := encode_url_ne_nil coded filled
  visible := fun _ => visible_of_mem_encode_url coded
  unmarked := by
    rw [encode_url_of_coded coded]
    exact fun inside => unmarked (marker_infix_of_encode_url inside)
  unclosed := by
    rw [encode_url_of_coded coded]
    exact fun closed => unclosed (closed_of_encode_url closed)

end MapChain.Reference
