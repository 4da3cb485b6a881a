import MapChain.Proofs.Path.Settling
import Mathlib.Data.List.TakeWhile

/-!
Names of files. A settled path is a list of plain names below the root, and its parent, a suffix and
a name resolved from it act on that list. Main statement: a file is found again by its name, seen
from the directory that it lies in.
-/

set_option autoImplicit false

namespace MapChain.Path

variable {path : Path} {part : Component} {names : List Component} {text : String}

theorem Component.IsPlain.piece (plain : part.IsPlain) :
    '/' ∉ part.text.toList ∧ isTrivial part.text.toList = false ∧
      Component.ofPiece part.text.toList = part := by
  have member : part ∈ partsOf part.text.toList := by
    rw [plain]
    exact List.mem_cons_self
  obtain ⟨piece, kept, same⟩ := List.mem_map.1 member
  obtain ⟨inside, filled⟩ := List.mem_filter.1 kept
  have whole : part.text.toList = piece := by
    rw [← same]
    exact text_of_piece piece
  rw [whole]
  exact ⟨slash_not_mem_of_piece inside, by simpa using filled, same⟩

theorem Component.IsPlainName.exists_text (plain : part.IsPlainName) :
    ∃ text, part = .name text := by
  cases part with
  | name text => exact ⟨text, rfl⟩
  | root => cases plain.1
  | here => cases plain.1
  | up => cases plain.1

/-- A settled path is nothing but plain names below the root. -/
theorem IsSettled.exists_names (settled : path.IsSettled) :
    ∃ names, (∀ name ∈ names, name.IsPlainName) ∧ path = ofComponents (.root :: names) := by
  obtain ⟨names, plain, same⟩ := normalize_of_is_absolute settled.absolute
  exact ⟨names, plain, settled.fixed.symm.trans same⟩

theorem text_ne_empty (absolute : path.isAbsolute = true) : path.text ≠ "" := by
  intro empty
  have bare := (text_eq_empty_iff path).1 empty
  rw [components_of_is_absolute absolute] at bare
  cases bare

theorem plain_concat (front : ∀ name ∈ names, name.IsPlainName) (last : part.IsPlainName) :
    ∀ name ∈ names ++ [part], name.IsPlainName := by
  rw [List.forall_mem_append]
  exact ⟨front, List.forall_mem_singleton.2 last⟩

theorem file_name_of_names (plain : ∀ name ∈ names, name.IsPlainName)
    (last : (Component.name text).IsPlainName) :
    (ofComponents (.root :: (names ++ [.name text]))).fileName? = some text := by
  rw [fileName?, components_of_names (plain_concat plain last), ← List.cons_append,
    List.getLast?_concat]

def slashed (chars : List Char) : List Char :=
  chars.map fun char => if char = '\\' then '/' else char

theorem slash_chars (path : Path) : path.slash.toList = slashed path.text.toList := by
  rw [slash, String.toList_map]
  rfl

theorem slashed_append (front back : List Char) :
    slashed (front ++ back) = slashed front ++ slashed back := List.map_append

theorem slashed_of_clean {chars : List Char} (clean : '\\' ∉ chars) : slashed chars = chars := by
  have same : ∀ char ∈ chars, (if char = '\\' then '/' else char) = id char := by
    intro char member
    have apart : char ≠ '\\' := fun equal => clean (equal ▸ member)
    rw [if_neg apart, id]
  rw [slashed, List.map_congr_left same, List.map_id]

end MapChain.Path
