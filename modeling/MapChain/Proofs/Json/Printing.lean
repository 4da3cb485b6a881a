import MapChain.Json

/-!
The printed text of a JSON value. Every reader is shown to take exactly what its part of the printer
wrote and to leave what follows. Main statement: the text of a value is read as that value.
-/

set_option autoImplicit false

namespace MapChain.Json

variable {rest : List Char} {steps : Nat} {json : Json}

/-- All numbers in a value are whole, and written without a sign. -/
inductive IsWhole : Json → Prop where
  | null : IsWhole .null
  | bool (value : Bool) : IsWhole (.bool value)
  | number (number : Nat) : IsWhole (.number (toString number))
  | string (text : Option String) : IsWhole (.string text)
  | array {items : List Json} (whole : ∀ item ∈ items, IsWhole item) : IsWhole (.array items)
  | object {members : List (Option String × Json)}
      (whole : ∀ member ∈ members, IsWhole member.2) : IsWhole (.object members)

theorem unit_control {char : Char} (control : char.toNat < 0x20) :
    unit? '0' '0' (Quoted.hexDigit (char.toNat / 16)) (Quoted.hexDigit (char.toNat % 16)) =
      some char.toNat := by
  have all : ∀ code : Fin 32,
      unit? '0' '0' (Quoted.hexDigit (code / 16)) (Quoted.hexDigit (code % 16)) =
        some code.val := by decide
  exact all ⟨char.toNat, control⟩

theorem read_string_print_char (char : Char) (rest : List Char) :
    readString none (printChar char ++ rest) = prepend (some char) (readString none rest) := by
  unfold printChar
  split
  next quote => simp [quote, readString, escaped?, unpaired]
  split
  next backslash => simp [backslash, readString, escaped?, unpaired]
  split
  next backspace => simp [backspace, readString, escaped?, unpaired]
  split
  next feed => simp [feed, readString, escaped?, unpaired]
  split
  next line => simp [line, readString, escaped?, unpaired]
  split
  next carriage => simp [carriage, readString, escaped?, unpaired]
  split
  next tab => simp [tab, readString, escaped?, unpaired]
  split
  next control =>
    -- A control character lies far below the surrogates.
    have high : isHighSurrogate char.toNat = false := by
      simp only [isHighSurrogate, Bool.and_eq_false_iff, decide_eq_false_iff_not]
      omega
    have low : isLowSurrogate char.toNat = false := by
      simp only [isLowSurrogate, Bool.and_eq_false_iff, decide_eq_false_iff_not]
      omega
    simp [readString, unit_control control, high, low, unpaired]
  next quote backslash _ _ _ _ _ visible =>
    have plain : ¬(char = '\\' ∨ char.toNat < 0x20) := by simp [backslash, visible]
    rw [List.singleton_append, readString]
    · rw [if_neg plain]
      rfl
    · exact quote
    · intro first second third fourth _ same _
      exact backslash same
    · intro _ _ same _
      exact backslash same

theorem read_string_text (text rest : List Char) :
    readString none (text.flatMap printChar ++ '"' :: rest) = some (some text, rest) := by
  induction text with
  | nil => simp [readString]
  | cons char text induction =>
      rw [List.flatMap_cons, List.append_assoc, read_string_print_char, induction]
      rfl

/-- A literal opens with a quote, and what stands behind that is read as the text of the literal. -/
theorem print_string_opened (text : Option String) :
    ∃ inside, printString text = '"' :: inside ∧ ∀ rest,
      readString none (inside ++ rest) = some (text.map String.toList, rest) := by
  cases text with
  | none =>
      refine ⟨_, rfl, fun rest => ?_⟩
      have unit : unit? 'd' '8' '0' '0' = some 0xD800 := by decide
      have high : isHighSurrogate 0xD800 = true := by decide
      simp [readString, unit, high]
  | some text =>
      refine ⟨_, rfl, fun rest => ?_⟩
      rw [List.append_assoc]
      exact read_string_text text.toList rest

theorem to_digits_opened (number : Nat) :
    ∃ first others, Nat.toDigits 10 number = first :: others ∧ first.isDigit = true := by
  obtain ⟨first, others, shape⟩ :=
    List.exists_cons_of_ne_nil (Nat.toDigits_ne_nil (n := number) (b := 10))
  have member : first ∈ Nat.toDigits 10 number := by
    rw [shape]
    exact List.mem_cons_self
  exact ⟨first, others, shape, Nat.isDigit_of_mem_toDigits (by decide) (by decide) member⟩

theorem ne_of_digit {digit char : Char} (isDigit : digit.isDigit = true)
    (sign : char.isDigit = false) : digit ≠ char := by
  rintro rfl
  rw [sign] at isDigit
  cases isDigit

theorem print_number (number : Nat) :
    print (.number (toString number)) = Nat.toDigits 10 number := by
  rw [print, Nat.toString_eq_ofList_toDigits, String.toList_ofList]

theorem head_to_digits {number : Nat} (positive : 0 < number) :
    (Nat.toDigits 10 number).head? ≠ some '0' := by
  induction number using Nat.strongRecOn with
  | ind number induction =>
      by_cases small : number < 10
      · have all : ∀ digit : Fin 10, 0 < digit.val → Nat.digitChar digit ≠ '0' := by decide
        rw [Nat.toDigits_of_lt_base small]
        simpa using all ⟨number, small⟩ positive
      · rw [Nat.toDigits_of_base_le (by decide) (Nat.le_of_not_lt small), List.head?_append,
          Option.or_of_isSome (List.isSome_head?.2 Nat.toDigits_ne_nil)]
        exact induction (number / 10) (by omega) (by omega)

/-- What may follow a value: the end, or what separates or closes. -/
def Stops (rest : List Char) : Prop :=
  ∀ char ∈ rest.head?, char = ',' ∨ char = ']' ∨ char = '\x7d'

theorem read_digits_of_number (number : Nat) (stops : Stops rest) :
    readDigits (Nat.toDigits 10 number ++ rest) = some (Nat.toDigits 10 number, rest) := by
  have digits : ∀ char ∈ Nat.toDigits 10 number, char.isDigit = true :=
    fun char member => Nat.isDigit_of_mem_toDigits (by decide) (by decide) member
  have ended : rest.takeWhile Char.isDigit = [] ∧ rest.dropWhile Char.isDigit = rest := by
    cases rest with
    | nil => exact ⟨rfl, rfl⟩
    | cons char rest =>
        have sign : char.isDigit = false := by
          rcases stops char rfl with rfl | rfl | rfl <;> rfl
        simp [sign]
  rw [readDigits, List.takeWhile_append_of_pos digits, List.dropWhile_append_of_pos digits,
    ended.1, ended.2, List.append_nil]
  split
  next empty => exact absurd empty Nat.toDigits_ne_nil
  next => rfl

theorem read_whole_of_number (number : Nat) (stops : Stops rest) :
    readWhole (Nat.toDigits 10 number ++ rest) = some (Nat.toDigits 10 number, rest) := by
  rw [readWhole, read_digits_of_number number stops]
  split
  next second others _ same =>
    simp only [Option.some.injEq, Prod.mk.injEq] at same
    by_cases positive : 0 < number
    · have zero := head_to_digits positive
      rw [same.1] at zero
      exact absurd rfl zero
    · rw [Nat.eq_zero_of_not_pos positive] at same
      cases same.1
  next => rfl

theorem read_number_of_number (number : Nat) (stops : Stops rest) :
    readNumber (Nat.toDigits 10 number ++ rest) = some (.number (toString number), rest) := by
  have whole := read_whole_of_number number stops
  have fraction : readFraction rest = some ([], rest) := by
    unfold readFraction
    split
    next => rcases stops '.' rfl with point | point | point <;> cases point
    next => rfl
  have exponent : readExponent rest = some ([], rest) := by
    unfold readExponent
    split
    next mark rest =>
      have other : ¬(mark = 'e' ∨ mark = 'E') := by
        rcases stops mark rfl with rfl | rfl | rfl <;> decide
      rw [if_neg other]
    next => rfl
  obtain ⟨first, others, shape, digit⟩ := to_digits_opened number
  rw [Nat.toString_eq_ofList_toDigits]
  rw [shape, List.cons_append] at whole ⊢
  rw [readNumber]
  · simp only [whole, fraction, exponent, Option.bind_eq_bind, Option.bind_some, List.nil_append,
      List.append_nil]
    rfl
  · intro tail same
    exact ne_of_digit digit (by decide) (List.head_eq_of_cons_eq same)

theorem skip_blank_cons {first : Char} (visible : isBlank first = false) (others : List Char) :
    skipBlank (first :: others) = first :: others := by
  rw [skipBlank, List.dropWhile_cons_of_neg]
  simp [visible]

theorem is_blank_of_digit {digit : Char} (isDigit : digit.isDigit = true) :
    isBlank digit = false := by
  simp [isBlank, ne_of_digit isDigit]

theorem IsWhole.opened (whole : json.IsWhole) :
    ∃ first others, json.print = first :: others ∧ isBlank first = false ∧ first ≠ ']' := by
  cases whole with
  | null => exact ⟨_, _, rfl, by decide, by decide⟩
  | bool value => cases value <;> exact ⟨_, _, rfl, by decide, by decide⟩
  | number number =>
      obtain ⟨first, others, shape, digit⟩ := to_digits_opened number
      exact ⟨first, others, (print_number number).trans shape, is_blank_of_digit digit,
        ne_of_digit digit (by decide)⟩
  | string text =>
      obtain ⟨inside, opened, -⟩ := print_string_opened text
      exact ⟨'"', inside, opened, by decide, by decide⟩
  | @array items whole => cases items <;> exact ⟨_, _, rfl, by decide, by decide⟩
  | @object members whole => cases members <;> exact ⟨_, _, rfl, by decide, by decide⟩

/-- Two steps for each printed character are enough to read the value back. -/
def Returns (json : Json) : Prop :=
  ∀ steps rest, 2 * json.print.length ≤ steps → Stops rest →
    readValue steps (json.print ++ rest) = some (json, rest)

theorem read_value_of_digit {first : Char} (digit : first.isDigit = true) (text : List Char) :
    readValue (steps + 1) (first :: text) = readNumber (first :: text) := by
  rw [readValue, skip_blank_cons (is_blank_of_digit digit)]
  split
  next same => exact absurd (List.head_eq_of_cons_eq same) (ne_of_digit digit (by decide))
  next same => exact absurd (List.head_eq_of_cons_eq same) (ne_of_digit digit (by decide))
  next same => exact absurd (List.head_eq_of_cons_eq same) (ne_of_digit digit (by decide))
  next same => exact absurd (List.head_eq_of_cons_eq same) (ne_of_digit digit (by decide))
  next same => exact absurd (List.head_eq_of_cons_eq same) (ne_of_digit digit (by decide))
  next same => exact absurd (List.head_eq_of_cons_eq same) (ne_of_digit digit (by decide))
  next => rfl

theorem returns_number (number : Nat) : Returns (.number (toString number)) := by
  intro steps rest enough stops
  have read := read_number_of_number number stops
  obtain ⟨first, others, shape, digit⟩ := to_digits_opened number
  rw [print_number, shape, List.length_cons] at enough
  rw [print_number]
  rw [shape, List.cons_append] at read ⊢
  obtain ⟨steps, rfl⟩ := Nat.exists_eq_add_one_of_ne_zero (n := steps) (by omega)
  rw [read_value_of_digit digit, read]

theorem returns_string (text : Option String) : Returns (.string text) := by
  intro steps rest enough _
  obtain ⟨inside, opened, read⟩ := print_string_opened text
  rw [print, opened, List.length_cons] at enough
  obtain ⟨steps, rfl⟩ := Nat.exists_eq_add_one_of_ne_zero (n := steps) (by omega)
  rw [print, opened, List.cons_append, readValue, skip_blank_cons (by decide)]
  simp only [read, Option.bind_eq_bind, Option.bind_some]
  cases text with
  | none => rfl
  | some text => simp

theorem read_items_of_print {item : Json} {items : List Json} (first : Returns item)
    (others : ∀ other ∈ items, Returns other) (steps : Nat) (rest : List Char)
    (enough : 2 * (item.print ++ printItems items).length ≤ steps) :
    readItems steps (item.print ++ printItems items ++ rest) = some (item :: items, rest) := by
  induction items generalizing item steps with
  | nil =>
      rw [printItems, List.length_append, List.length_singleton] at enough
      obtain ⟨steps, rfl⟩ := Nat.exists_eq_add_one_of_ne_zero (n := steps) (by omega)
      have read := first steps (']' :: rest) (by omega) (by simp [Stops])
      rw [printItems, List.append_assoc, List.singleton_append, readItems]
      simp only [read, Option.bind_eq_bind, Option.bind_some,
        skip_blank_cons (by decide : isBlank ']' = false)]
      rfl
  | cons next items induction =>
      rw [List.forall_mem_cons] at others
      rw [printItems, List.length_append, List.length_cons] at enough
      obtain ⟨steps, rfl⟩ := Nat.exists_eq_add_one_of_ne_zero (n := steps) (by omega)
      have read := first steps (',' :: (next.print ++ printItems items ++ rest)) (by omega)
        (by simp [Stops])
      have later := induction others.1 others.2 steps (by omega)
      rw [printItems, List.append_assoc, List.cons_append, readItems]
      simp only [read, later, Option.bind_eq_bind, Option.bind_some,
        skip_blank_cons (by decide : isBlank ',' = false)]
      rfl

theorem returns_array {items : List Json} (whole : ∀ item ∈ items, item.IsWhole)
    (returns : ∀ item ∈ items, Returns item) : Returns (.array items) := by
  intro steps rest enough _
  cases items with
  | nil =>
      rw [print, List.length_cons] at enough
      obtain ⟨steps, rfl⟩ := Nat.exists_eq_add_one_of_ne_zero (n := steps) (by omega)
      rfl
  | cons item items =>
      rw [List.forall_mem_cons] at whole returns
      rw [print, List.length_cons] at enough
      obtain ⟨steps, rfl⟩ := Nat.exists_eq_add_one_of_ne_zero (n := steps) (by omega)
      have read := read_items_of_print returns.1 returns.2 steps rest (by omega)
      obtain ⟨first, others, shape, visible, unended⟩ := whole.1.opened
      rw [shape, List.cons_append, List.cons_append] at read
      rw [print, List.cons_append, readValue, skip_blank_cons (by decide), shape,
        List.cons_append, List.cons_append]
      simp only [skip_blank_cons visible]
      split
      next same => exact absurd (List.head_eq_of_cons_eq same) unended
      next =>
        rw [read]
        rfl

theorem read_key_of_print (key : Option String) (rest : List Char) :
    readKey (printString key ++ ':' :: rest) = some (key, rest) := by
  obtain ⟨inside, opened, read⟩ := print_string_opened key
  rw [opened, List.cons_append, readKey, skip_blank_cons (by decide)]
  simp only [read, Option.bind_eq_bind, Option.bind_some,
    skip_blank_cons (by decide : isBlank ':' = false)]
  cases key with
  | none => rfl
  | some key => simp

theorem read_members_of_print {member : Option String × Json}
    {members : List (Option String × Json)} (first : Returns member.2)
    (others : ∀ other ∈ members, Returns other.2) (steps : Nat) (rest : List Char)
    (enough : 2 * (printString member.1 ++
      ':' :: (member.2.print ++ printMembers members)).length ≤ steps) :
    readMembers steps
        (printString member.1 ++ ':' :: (member.2.print ++ printMembers members) ++ rest) =
      some (member :: members, rest) := by
  induction members generalizing member steps with
  | nil =>
      simp only [printMembers, List.length_append, List.length_cons, List.length_nil] at enough
      obtain ⟨steps, rfl⟩ := Nat.exists_eq_add_one_of_ne_zero (n := steps) (by omega)
      have read := first steps ('\x7d' :: rest) (by omega) (by simp [Stops])
      rw [printMembers, List.append_assoc, List.cons_append, List.append_assoc,
        List.singleton_append, readMembers]
      simp only [read_key_of_print, read, Option.bind_eq_bind, Option.bind_some,
        skip_blank_cons (by decide : isBlank '\x7d' = false)]
      rfl
  | cons next members induction =>
      rw [List.forall_mem_cons] at others
      simp only [printMembers, List.length_append, List.length_cons] at enough
      obtain ⟨steps, rfl⟩ := Nat.exists_eq_add_one_of_ne_zero (n := steps) (by omega)
      have read := first steps (',' :: (printString next.1 ++
        ':' :: (next.2.print ++ printMembers members) ++ rest)) (by omega) (by simp [Stops])
      have later := induction others.1 others.2 steps
        (by simp only [List.length_append, List.length_cons]; omega)
      rw [printMembers, List.append_assoc, List.cons_append, List.append_assoc, List.cons_append,
        readMembers]
      simp only [read_key_of_print, read, later, Option.bind_eq_bind, Option.bind_some,
        skip_blank_cons (by decide : isBlank ',' = false)]
      rfl

theorem returns_object {members : List (Option String × Json)}
    (returns : ∀ member ∈ members, Returns member.2) : Returns (.object members) := by
  intro steps rest enough _
  cases members with
  | nil =>
      rw [print, List.length_cons] at enough
      obtain ⟨steps, rfl⟩ := Nat.exists_eq_add_one_of_ne_zero (n := steps) (by omega)
      rfl
  | cons member members =>
      rw [List.forall_mem_cons] at returns
      rw [print, List.length_cons] at enough
      obtain ⟨steps, rfl⟩ := Nat.exists_eq_add_one_of_ne_zero (n := steps) (by omega)
      have read := read_members_of_print returns.1 returns.2 steps rest (by omega)
      obtain ⟨inside, opened, -⟩ := print_string_opened member.1
      rw [opened, List.cons_append, List.cons_append] at read
      rw [print, List.cons_append, readValue, skip_blank_cons (by decide), opened,
        List.cons_append, List.cons_append]
      simp only [skip_blank_cons (by decide : isBlank '"' = false)]
      split
      next same => cases List.head_eq_of_cons_eq same
      next =>
        rw [read]
        rfl

theorem IsWhole.returns (whole : json.IsWhole) : Returns json := by
  induction whole with
  | null =>
      intro steps rest enough _
      simp only [print, List.length_cons] at enough
      obtain ⟨steps, rfl⟩ := Nat.exists_eq_add_one_of_ne_zero (n := steps) (by omega)
      rfl
  | bool value =>
      intro steps rest enough _
      cases value <;>
      · simp only [print, List.length_cons] at enough
        obtain ⟨steps, rfl⟩ := Nat.exists_eq_add_one_of_ne_zero (n := steps) (by omega)
        rfl
  | number number => exact returns_number number
  | string text => exact returns_string text
  | array whole returns => exact returns_array whole returns
  | object _ returns => exact returns_object returns

theorem parse_print (whole : json.IsWhole) : parse (String.ofList json.print) = some json := by
  have read := whole.returns (2 * json.print.length + 2) [] (by omega) (by simp [Stops])
  rw [List.append_nil] at read
  rw [parse, String.toList_ofList]
  simp only [read]
  rfl

end MapChain.Json
