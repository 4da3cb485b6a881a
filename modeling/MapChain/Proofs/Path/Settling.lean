import MapChain.Proofs.Path.Joining

/-!
Paths in their shortest spelling. Main statements: parts that are written out are read back one by
one, so normalizing twice does no more than normalizing once, and what is resolved from an absolute
directory is absolute and has no dots among its parts.
-/

set_option autoImplicit false

namespace MapChain.Path

variable {directory base path : Path} {part : Component} {parts names : List Component}

/-- Written out, the part is read back as that part alone. -/
def Component.IsPlain (part : Component) : Prop := partsOf part.text.toList = [part]

theorem slash_not_mem_of_piece {text piece : List Char} (member : piece ∈ text.splitOn '/') :
    '/' ∉ piece := by
  induction text generalizing piece with
  | nil =>
      rw [List.splitOn_nil, List.mem_singleton] at member
      simp [member]
  | cons char text induction =>
      obtain ⟨first, others, cut⟩ := List.exists_cons_of_ne_nil (List.splitOn_ne_nil '/' text)
      rw [List.splitOn_cons_eq_if_modifyHead, cut] at member
      rw [cut] at induction
      by_cases slash : char = '/'
      · simp only [slash, beq_self_eq_true, if_true, List.mem_cons] at member
        rcases member with rfl | inside
        · simp
        · exact induction (List.mem_cons.2 inside)
      · simp only [beq_iff_eq, slash, if_false, List.modifyHead_cons, List.mem_cons] at member
        rcases member with rfl | inside
        · rw [List.mem_cons, not_or]
          exact ⟨Ne.symm slash, induction List.mem_cons_self⟩
        · exact induction (List.mem_cons_of_mem first inside)

theorem text_of_piece (piece : List Char) : (Component.ofPiece piece).text.toList = piece := by
  unfold Component.ofPiece
  split
  next dots =>
    rw [dots]
    rfl
  next => exact String.toList_ofList

theorem is_plain_of_mem_parts {text : List Char} (member : part ∈ partsOf text) :
    part.IsPlain := by
  obtain ⟨piece, kept, rfl⟩ := List.mem_map.1 member
  obtain ⟨inside, written⟩ := List.mem_filter.1 kept
  have whole : piece.splitOn '/' = [piece] :=
    List.splitOn_eq_singleton (slash_not_mem_of_piece inside)
  simp [Component.IsPlain, text_of_piece, partsOf, whole, written]

theorem parts_of_intercalate (plain : ∀ part ∈ parts, part.IsPlain) :
    partsOf (['/'].intercalate (parts.map (·.text.toList))) = parts := by
  induction parts with
  | nil => decide
  | cons part parts induction =>
      rw [List.forall_mem_cons] at plain
      obtain ⟨alone, others⟩ := plain
      cases parts with
      | nil => simpa [Component.IsPlain] using alone
      | cons next parts =>
          have rest := induction others
          rw [List.map_cons] at rest
          rw [List.map_cons, List.map_cons, List.intercalate_cons_cons, List.append_assoc,
            List.singleton_append, parts_of_append_slash, rest, alone, List.singleton_append]

theorem text_of_components (parts : List Component) :
    (ofComponents (.root :: parts)).text.toList =
      '/' :: ['/'].intercalate (parts.map (·.text.toList)) := by
  have slash : "/".toList = ['/'] := by decide
  rw [ofComponents, String.toList_append, String.toList_intercalate, List.map_map, slash]
  rfl

/-- Parts that are written out behind the root are read back as they are. -/
theorem components_of_components (plain : ∀ part ∈ parts, part.IsPlain) :
    (ofComponents (.root :: parts)).components = .root :: parts := by
  rw [components_eq, text_of_components, parts_of_cons_slash, parts_of_intercalate plain]
  rfl

theorem components_of_is_absolute (absolute : path.isAbsolute = true) :
    path.components = .root :: partsOf path.text.toList := by
  have first : path.text.toList.head? = some '/' := of_decide_eq_true absolute
  obtain ⟨rest, written⟩ := List.head?_eq_some_iff.1 first
  rw [components_eq, written]
  rfl

/-- A name that stays the same name when it is written out. -/
def Component.IsPlainName (part : Component) : Prop := part.isName = true ∧ part.IsPlain

theorem settle_above_root (plain : ∀ name ∈ names, name.IsPlainName)
    (inner : part.isPart = true) (alone : part.IsPlain) :
    ∃ next, settle (names ++ [.root]) part = next ++ [.root] ∧
      ∀ name ∈ next, name.IsPlainName := by
  cases part with
  | root => cases inner
  | here => cases inner
  | name text =>
      refine ⟨.name text :: names, rfl, ?_⟩
      rw [List.forall_mem_cons]
      exact ⟨⟨rfl, alone⟩, plain⟩
  | up =>
      cases names with
      | nil => exact ⟨[], rfl, plain⟩
      | cons top below =>
          rw [List.forall_mem_cons] at plain
          obtain ⟨⟨isName, -⟩, others⟩ := plain
          cases top with
          | name text => exact ⟨below, rfl, others⟩
          | root => cases isName
          | here => cases isName
          | up => cases isName

theorem foldl_settle_above_root (plain : ∀ name ∈ names, name.IsPlainName)
    (inner : ∀ part ∈ parts, part.isPart = true) (alone : ∀ part ∈ parts, part.IsPlain) :
    ∃ left, parts.foldl settle (names ++ [.root]) = left ++ [.root] ∧
      ∀ name ∈ left, name.IsPlainName := by
  induction parts generalizing names with
  | nil => exact ⟨names, rfl, plain⟩
  | cons part parts induction =>
      rw [List.forall_mem_cons] at inner alone
      obtain ⟨next, settled, still⟩ := settle_above_root plain inner.1 alone.1
      rw [List.foldl_cons, settled]
      exact induction still inner.2 alone.2

theorem foldl_settle_names (named : ∀ name ∈ names, name.isName = true)
    (stack : List Component) : names.foldl settle stack = names.reverse ++ stack := by
  induction names generalizing stack with
  | nil => rfl
  | cons name names induction =>
      rw [List.forall_mem_cons] at named
      obtain ⟨isName, others⟩ := named
      cases name with
      | name text =>
          rw [List.foldl_cons, induction others, List.reverse_cons, List.append_assoc]
          rfl
      | root => cases isName
      | here => cases isName
      | up => cases isName

theorem settled_names (named : ∀ name ∈ names, name.isName = true) :
    settled (.root :: names) = .root :: names := by
  rw [settled, List.foldl_cons, foldl_settle_names named, List.reverse_append,
    List.reverse_reverse]
  rfl

/-- The parts of an absolute path settle down to names below the root. -/
theorem settled_of_is_absolute (absolute : path.isAbsolute = true) :
    ∃ names, (∀ name ∈ names, name.IsPlainName) ∧ settled path.components = .root :: names := by
  have inner : ∀ part ∈ partsOf path.text.toList, part.isPart = true := by
    rw [parts_of_components]
    exact fun part member => (List.mem_filter.1 member).2
  have nameless : ∀ name ∈ ([] : List Component), name.IsPlainName := by simp
  obtain ⟨left, ended, known⟩ :=
    foldl_settle_above_root nameless inner fun part member => is_plain_of_mem_parts member
  refine ⟨left.reverse, fun name member => known name (List.mem_reverse.1 member), ?_⟩
  rw [components_of_is_absolute absolute, settled, List.foldl_cons]
  rw [List.nil_append] at ended
  rw [settle, ended, List.reverse_append, List.reverse_singleton, List.singleton_append]

/-- An absolute path in its shortest spelling. -/
structure IsSettled (path : Path) : Prop where
  absolute : path.isAbsolute = true
  noHere : .here ∉ path.components
  noUp : .up ∉ path.components
  fixed : normalize path = path

theorem components_of_names (plain : ∀ name ∈ names, name.IsPlainName) :
    (ofComponents (.root :: names)).components = .root :: names :=
  components_of_components fun name member => (plain name member).2

theorem is_settled_of_names (plain : ∀ name ∈ names, name.IsPlainName) :
    (ofComponents (.root :: names)).IsSettled := by
  have read := components_of_names plain
  have only {part : Component} (member : part ∈ (ofComponents (.root :: names)).components) :
      part = .root ∨ part.isName = true := by
    rw [read] at member
    rcases List.mem_cons.1 member with root | inside
    · exact Or.inl root
    · exact Or.inr (plain part inside).1
  refine ⟨?_, ?_, ?_, ?_⟩
  · rw [is_absolute_iff, read]
    rfl
  · intro member
    rcases only member with root | name
    · cases root
    · cases name
  · intro member
    rcases only member with root | name
    · cases root
    · cases name
  · rw [normalize, read, settled_names fun name member => (plain name member).1]

theorem normalize_of_is_absolute (absolute : path.isAbsolute = true) :
    ∃ names, (∀ name ∈ names, name.IsPlainName) ∧
      normalize path = ofComponents (.root :: names) := by
  obtain ⟨names, plain, same⟩ := settled_of_is_absolute absolute
  exact ⟨names, plain, congrArg ofComponents same⟩

theorem is_settled_normalize (absolute : path.isAbsolute = true) :
    (normalize path).IsSettled := by
  obtain ⟨names, plain, same⟩ := normalize_of_is_absolute absolute
  rw [same]
  exact is_settled_of_names plain

theorem is_absolute_join (absolute : base.isAbsolute = true) (path : Path) :
    (base.join path).isAbsolute = true := by
  have first : base.text.toList.head? = some '/' := of_decide_eq_true absolute
  unfold join
  split
  · assumption
  · split <;> simp [isAbsolute, first]

/-- Resolving from an absolute directory gives an absolute path without dots. -/
theorem is_settled_resolve (absolute : directory.isAbsolute = true) (base path : Path) :
    (resolve directory base path).IsSettled := by
  unfold resolve
  split
  next given => exact is_settled_normalize given
  · split
    next based => exact is_settled_normalize (is_absolute_join based path)
    next =>
      exact is_settled_normalize (is_absolute_join (is_absolute_join absolute base) path)

end MapChain.Path
