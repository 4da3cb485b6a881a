import MapChain.Path.Resolve

/-!
The parts of joined paths. Main statements: joining a relative path puts its parts behind those of
the base, and resolving does not see in which spelling a base is given.
-/

set_option autoImplicit false

namespace MapChain.Path

variable {base path left right : Path}

def partsOf (text : List Char) : List Component :=
  ((text.splitOn '/').filter (!isTrivial ·)).map Component.ofPiece

theorem parts_of_cons_slash (text : List Char) : partsOf ('/' :: text) = partsOf text := by
  simp [partsOf, List.splitOn_cons_eq_if_modifyHead, isTrivial]

theorem parts_of_append_slash (front back : List Char) :
    partsOf (front ++ '/' :: back) = partsOf front ++ partsOf back := by
  unfold partsOf
  rw [List.splitOn_append_cons_self, List.filter_append, List.map_append]

theorem parts_of_drop_lead (text : List Char) :
    partsOf (text.drop (lead text).length) = partsOf text := by
  unfold lead
  split
  · exact (parts_of_cons_slash _).symm
  · rfl
  next rest =>
    have dotted := parts_of_append_slash ['.'] rest
    have nothing : partsOf ['.'] = [] := by decide
    rw [nothing, List.nil_append] at dotted
    exact (parts_of_cons_slash rest).trans dotted.symm
  · rfl

theorem components_eq (path : Path) :
    path.components = leadComponents (lead path.text.toList) ++ partsOf path.text.toList := by
  rw [← parts_of_drop_lead path.text.toList]
  rfl

theorem lead_append_slash {front : List Char} (written : front ≠ []) (back : List Char) :
    lead (front ++ '/' :: back) = lead front := by
  cases front with
  | nil => exact absurd rfl written
  | cons first rest =>
      by_cases slash : first = '/'
      · rw [slash]
        rfl
      · by_cases dot : first = '.'
        · rw [dot]
          cases rest with
          | nil => rfl
          | cons second rest =>
              by_cases deep : second = '/'
              · rw [deep]
                rfl
              · simp [lead, deep]
        · simp [lead, slash, dot]

/-- The parts of a relative path follow those of a base that is not empty. -/
theorem components_join (written : base.text ≠ "") (relative : path.isAbsolute = false) :
    (base.join path).components = base.components ++ partsOf path.text.toList := by
  have nonempty : base.text.toList ≠ [] := by simpa using written
  have absolute : ¬path.isAbsolute = true := by simp [relative]
  rw [components_eq, components_eq base, List.append_assoc, join, if_neg absolute]
  by_cases closed : base.text.toList.getLast? = some '/'
  · rw [if_pos (Or.inr closed), String.toList_append]
    obtain ⟨front, whole⟩ := List.getLast?_eq_some_iff.1 closed
    rw [whole, List.append_assoc, List.singleton_append, parts_of_append_slash,
      parts_of_append_slash, List.append_assoc]
    have nothing : partsOf [] = [] := by decide
    rw [nothing, List.nil_append]
    congr 2
    by_cases whole : front = []
    · rw [whole]
      rfl
    · rw [lead_append_slash whole, lead_append_slash whole]
  · rw [if_neg (by simp [written, closed]), String.toList_append, String.toList_append]
    have slash : "/".toList = ['/'] := by decide
    rw [slash, List.append_assoc, List.singleton_append, parts_of_append_slash,
      lead_append_slash nonempty]

def Component.isPart : Component → Bool
  | .root => false
  | .here => false
  | _ => true

theorem parts_of_components (path : Path) :
    partsOf path.text.toList = path.components.filter Component.isPart := by
  have lost (text : List Char) : (leadComponents text).filter Component.isPart = [] := by
    unfold leadComponents
    split <;> rfl
  have kept (part : Component) (member : part ∈ partsOf path.text.toList) :
      part.isPart = true := by
    obtain ⟨piece, -, rfl⟩ := List.mem_map.1 member
    unfold Component.ofPiece
    split <;> rfl
  rw [components_eq, List.filter_append, lost, List.nil_append, List.filter_eq_self.2 kept]

theorem is_absolute_iff (path : Path) :
    path.isAbsolute = true ↔ path.components.head? = some .root := by
  rw [components_eq, isAbsolute, decide_eq_true_iff]
  generalize path.text.toList = text
  have inner : (partsOf text).head? ≠ some .root := by
    intro first
    obtain ⟨piece, -, same⟩ := List.mem_map.1 (List.mem_of_head? first)
    unfold Component.ofPiece at same
    split at same <;> cases same
  unfold lead
  split
  · simp [leadComponents]
  · simp [leadComponents]
  · simp [leadComponents]
  next other _ _ =>
    refine ⟨fun first => ?_, fun first => absurd first inner⟩
    cases text with
    | nil => cases first
    | cons char rest =>
        cases first
        exact absurd rfl (other rest)

theorem lead_ne_nil_of_parts {char : Char} {rest : List Char} (bare : partsOf (char :: rest) = []) :
    lead (char :: rest) ≠ [] := by
  by_cases slash : char = '/'
  · rw [slash]
    simp [lead]
  · obtain ⟨first, others, cut⟩ := List.exists_cons_of_ne_nil (List.splitOn_ne_nil '/' rest)
    have pieces : (char :: rest).splitOn '/' = (char :: first) :: others := by
      rw [List.splitOn_cons_eq_if_modifyHead, cut]
      simp [slash]
    have dotted : isTrivial (char :: first) = true := by
      rw [partsOf, pieces, List.map_eq_nil_iff, List.filter_eq_nil_iff] at bare
      simpa using bare (char :: first) List.mem_cons_self
    simp only [isTrivial, reduceCtorEq, decide_false, Bool.false_or, decide_eq_true_iff,
      List.cons.injEq] at dotted
    obtain ⟨rfl, rfl⟩ := dotted
    cases rest with
    | nil => simp [lead]
    | cons second rest =>
        by_cases deep : second = '/'
        · rw [deep]
          simp [lead]
        · rw [List.splitOn_cons_eq_if_modifyHead] at cut
          obtain ⟨piece, more, shown⟩ :=
            List.exists_cons_of_ne_nil (List.splitOn_ne_nil '/' rest)
          simp [deep, shown] at cut

theorem text_eq_empty_iff (path : Path) : path.text = "" ↔ path.components = [] := by
  rw [← String.toList_eq_nil_iff, components_eq]
  generalize path.text.toList = text
  constructor
  · intro empty
    rw [empty]
    decide
  · intro bare
    obtain ⟨unled, bare⟩ := List.append_eq_nil_iff.1 bare
    cases text with
    | nil => rfl
    | cons char rest =>
        have led := lead_ne_nil_of_parts bare
        unfold lead at unled led
        split at unled
        · cases unled
        · cases unled
        · cases unled
        · simp_all

theorem Same.is_absolute (same : Same left right) : left.isAbsolute = right.isAbsolute := by
  rw [Bool.eq_iff_iff, is_absolute_iff, is_absolute_iff, same]

theorem Same.parts (same : Same left right) :
    partsOf left.text.toList = partsOf right.text.toList := by
  rw [parts_of_components, parts_of_components, same]

theorem join_of_empty (empty : base.text = "") (path : Path) : base.join path = path := by
  unfold join
  split
  · rfl
  · rw [if_pos (Or.inl empty), empty, String.empty_append]

theorem Same.join_left (same : Same left right) (path : Path) :
    Same (left.join path) (right.join path) := by
  by_cases absolute : path.isAbsolute = true
  · rw [join_of_is_absolute left absolute, join_of_is_absolute right absolute]
    rfl
  · have relative : path.isAbsolute = false := Bool.eq_false_iff.2 absolute
    have together : left.text = "" ↔ right.text = "" := by
      rw [text_eq_empty_iff, text_eq_empty_iff, same]
    by_cases written : left.text = ""
    · rw [join_of_empty written, join_of_empty (together.1 written)]
      rfl
    · have shown : right.text ≠ "" := fun empty => written (together.2 empty)
      unfold Same at same ⊢
      rw [components_join written relative, components_join shown relative, same]

theorem Same.join_right (same : Same left right) (relative : left.isAbsolute = false)
    (base : Path) : Same (base.join left) (base.join right) := by
  by_cases written : base.text = ""
  · rw [join_of_empty written, join_of_empty written]
    exact same
  · have apart : right.isAbsolute = false := same.is_absolute.symm.trans relative
    have parts := same.parts
    unfold Same
    rw [components_join written relative, components_join written apart, parts]

theorem Same.normalize (same : Same left right) : normalize left = normalize right := by
  unfold Path.normalize
  rw [same]

/-- Two spellings of a base lead to the same places. -/
theorem Same.resolve (same : Same left right) (directory path : Path) :
    resolve directory left path = resolve directory right path := by
  unfold Path.resolve
  rw [same.is_absolute]
  split
  · rfl
  · split
    · exact (same.join_left path).normalize
    next relative =>
      have apart : left.isAbsolute = false :=
        same.is_absolute.trans (Bool.eq_false_iff.2 relative)
      exact ((same.join_right apart directory).join_left path).normalize

end MapChain.Path
