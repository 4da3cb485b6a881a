import MapChain.Proofs.Mappings.RoundTrip

/-!
How large a number may be. A number is written in as many digits as it needs, and read only if it
has at most twelve of them. Its last digit is the only one without a mark, so the digits of one
number never begin with those of another. Main statement: rows of numbers below `2 ^ 59` are read
back, a row that holds a larger one is refused, and texts are read one behind the other.
-/

set_option autoImplicit false

namespace MapChain.Vlq

/-- The digits of one number, however many they are. -/
def Closed (text : List Char) : Prop :=
  ∃ marked last, text = marked ++ [last] ∧ (∀ char ∈ marked, IsMarked char) ∧ IsLast last

theorem IsLast.not_marked {char : Char} (ends : IsLast char) : ¬IsMarked char := by
  intro goes
  obtain ⟨digit, read, small⟩ := digit_value_of_is_last ends
  obtain ⟨other, same, large⟩ := digit_value_of_is_marked goes
  rw [read, Option.some.injEq] at same
  omega

theorem Group.closed {text : List Char} {value : Int} (group : Group text value) :
    Closed text := by
  obtain ⟨marked, last, same, -, goes, ends, -⟩ := group
  exact ⟨marked, last, same, goes, ends⟩

theorem closed_encode (value : Int) : Closed (encode value) := by
  have fits : toUnsigned value < 32 ^ (toUnsigned value + 1) :=
    (Nat.lt_succ_self _).trans (Nat.lt_pow_self (by decide))
  obtain ⟨marked, last, same, -, goes, ends⟩ := digits_encode_nat fits
  exact ⟨marked, last, same, goes, ends⟩

theorem Closed.eq_of_begins {left right : List Char} (closed : Closed left)
    (other : Closed right) (begins : left <+: right) : left = right := by
  obtain ⟨marked, last, rfl, -, ends⟩ := closed
  obtain ⟨before, final, rfl, goes, -⟩ := other
  cases List.prefix_concat_iff.1 begins with
  | inl same => exact same
  | inr inside =>
      have member : last ∈ before := inside.subset (by simp)
      exact absurd (goes last member) ends.not_marked

theorem encode_injective {value other : Int} (same : encode value = encode other) :
    value = other := by
  have numbers := congrArg unsigned same
  simp only [encode, unsigned_encode_nat] at numbers
  rw [← of_unsigned_to_unsigned value, numbers, of_unsigned_to_unsigned]

theorem length_encode_nat_le_iff {number count : Nat} :
    (encodeNat number).length ≤ count + 1 ↔ number < 32 ^ (count + 1) := by
  induction count generalizing number with
  | zero =>
      rw [encodeNat]
      split
      next small => simpa using small
      next large =>
        have filled := List.length_pos_iff.2 (encode_nat_ne_nil (number / 32))
        rw [List.length_cons, zero_add, pow_one]
        omega
  | succ count induction =>
      have power : 32 ^ (count + 1 + 1) = 32 ^ (count + 1) * 32 := pow_succ 32 (count + 1)
      have positive : 0 < 32 ^ (count + 1) := Nat.pow_pos (by decide)
      rw [encodeNat]
      split
      next small =>
        rw [List.length_singleton, power]
        omega
      next large =>
        rw [List.length_cons, Nat.add_le_add_iff_right, induction, power]
        omega

theorem to_unsigned_lt_iff (value : Int) :
    toUnsigned value < 32 ^ maxDigits ↔ value.natAbs ≤ 2 ^ 59 - 1 := by
  have limit : 32 ^ maxDigits = 2 ^ 60 := by decide
  rw [limit]
  unfold toUnsigned
  split <;> omega

theorem decode_from_full {offset count number : Nat} {char : Char} {digit : Nat}
    (read : Base64.digitValue? char = some digit) (rest : List Char) (full : maxDigits ≤ count) :
    decodeFrom offset count number (char :: rest) = .error .overlong := by
  rw [decodeFrom, read]
  simp only [if_pos full]

/-- Reads on to the digit that is one too many. -/
theorem decode_from_overlong {offset count number : Nat} {marked : List Char} {last : Char}
    (goes : ∀ char ∈ marked, IsMarked char) (ends : IsLast last) (rest : List Char)
    (long : maxDigits ≤ count + marked.length) :
    decodeFrom offset count number (marked ++ last :: rest) = .error .overlong := by
  induction marked generalizing offset count number with
  | nil =>
      obtain ⟨digit, read, -⟩ := digit_value_of_is_last ends
      exact decode_from_full read rest long
  | cons char marked induction =>
      rw [List.length_cons] at long
      have first : IsMarked char := goes char List.mem_cons_self
      by_cases room : count < maxDigits
      · rw [List.cons_append, decode_from_marked first _ room]
        apply induction
        · exact fun other member => goes other (List.mem_cons_of_mem char member)
        · omega
      · obtain ⟨digit, read, -⟩ := digit_value_of_is_marked first
        exact decode_from_full read _ (Nat.not_lt.1 room)

/-- The numbers before the first one that is too large are read, and then this one is refused. -/
theorem decode_from_encode_all {values : List Int} {value : Int} (member : value ∈ values)
    (large : 32 ^ maxDigits ≤ toUnsigned value) (offset : Nat) :
    decodeFrom offset 0 0 (encodeAll values) = .error .overlong := by
  induction values generalizing offset with
  | nil => cases member
  | cons first values induction =>
      rw [encodeAll, List.flatMap_cons]
      by_cases small : toUnsigned first < 32 ^ maxDigits
      · have later : value ∈ values := by
          cases List.mem_cons.1 member with
          | inl same =>
              rw [same] at large
              exact absurd small (Nat.not_lt.2 large)
          | inr later => exact later
        obtain ⟨marked, last, same, short, goes, ends, -⟩ := group_encode small
        have room : 0 + marked.length < maxDigits := by
          rw [Nat.zero_add]
          exact Nat.lt_succ_of_le short
        have refused : decodeFrom (offset + marked.length + 1) 0 0 (values.flatMap encode) =
            .error .overlong := induction later (offset + marked.length + 1)
        rw [same, List.append_assoc, List.singleton_append, decode_from_group goes ends _ room,
          refused]
        rfl
      · obtain ⟨marked, last, same, goes, ends⟩ := closed_encode first
        have many : ¬(encode first).length ≤ 11 + 1 := fun few =>
          small (length_encode_nat_le_iff.1 few)
        rw [same, List.length_append, List.length_singleton] at many
        rw [same, List.append_assoc, List.singleton_append]
        apply decode_from_overlong goes ends
        have most : maxDigits = 12 := rfl
        omega

theorem Spells.append {left right : List Char} {values others : List Int}
    (first : Spells left values) (second : Spells right others) :
    Spells (left ++ right) (values ++ others) := by
  induction first with
  | nil => exact second
  | cons group later induction =>
      rw [List.append_assoc, List.cons_append]
      exact .cons group induction

/-- Numbers are read back up to twelve digits. Those of thirteen are written, from a number that
fits sixty-three bits, and refused wherever they stand. -/
theorem numbers_read_up_to_limit :
    (∀ values : List Int, (∀ value ∈ values, value.natAbs ≤ 2 ^ 59 - 1) →
        decode (encodeAll values) = .ok values) ∧
      (∀ value : Int, 2 ^ 59 ≤ value.natAbs → value.natAbs ≤ 2 ^ 62 - 1 →
        toUnsigned value < 2 ^ 63 ∧ (encode value).length = maxDigits + 1 ∧
          ofUnsigned (unsigned (encode value)) = value ∧
          ∀ values : List Int, value ∈ values →
            decode (encodeAll values) = .error .overlong) ∧
      (∀ value other : Int, encode value <+: encode other → value = other) ∧
      ∀ (left right : List Char) (values others : List Int), decode left = .ok values →
        decode right = .ok others → decode (left ++ right) = .ok (values ++ others) := by
  constructor
  · intro values small
    apply decode_encode_all
    intro value member
    exact (to_unsigned_lt_iff value).2 (small value member)
  constructor
  · intro value low high
    have word : toUnsigned value < 2 ^ 63 := by
      unfold toUnsigned
      split <;> omega
    have large : ¬toUnsigned value < 32 ^ maxDigits := by
      rw [to_unsigned_lt_iff]
      omega
    have many : ¬(encode value).length ≤ 11 + 1 := fun few =>
      large (length_encode_nat_le_iff.1 few)
    have few : (encode value).length ≤ 12 + 1 :=
      length_encode_nat_le_iff.2 (word.trans (by decide))
    have most : maxDigits = 12 := rfl
    refine ⟨word, by omega, ?_, ?_⟩
    · rw [encode, unsigned_encode_nat, of_unsigned_to_unsigned]
    · intro values member
      exact decode_from_encode_all member (Nat.not_lt.1 large) 0
  constructor
  · intro value other begins
    exact encode_injective ((closed_encode value).eq_of_begins (closed_encode other) begins)
  · intro left right values others first second
    rw [decode_eq_ok_iff] at first second ⊢
    exact first.append second

/-- The largest numbers on both sides of the limit. -/
theorem numbers_at_limit :
    decode (encodeAll [2 ^ 59 - 1, 1 - 2 ^ 59, 0]) = .ok [2 ^ 59 - 1, 1 - 2 ^ 59, 0] ∧
      toUnsigned (-2 ^ 59) < 2 ^ 63 ∧ (encode (-2 ^ 59)).length = 13 ∧
      decode (encodeAll [7, -2 ^ 59, 0]) = .error .overlong ∧
      decode (encodeAll [2 ^ 62 - 1]) = .error .overlong ∧
      decode ("gB".toList ++ "DhC".toList) = .ok [16, -1, -32] := by
  obtain ⟨small, large, -, joined⟩ := numbers_read_up_to_limit
  obtain ⟨word, length, -, refused⟩ := large (-2 ^ 59) (by decide) (by decide)
  obtain ⟨-, -, -, last⟩ := large (2 ^ 62 - 1) (by decide) (by decide)
  refine ⟨small _ (by decide), word, length, refused _ (by decide), last _ (by decide), ?_⟩
  exact joined _ _ [16] [-1, -32] (by rfl) (by rfl)

end MapChain.Vlq
