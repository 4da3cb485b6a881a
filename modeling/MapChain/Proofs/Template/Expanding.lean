import MapChain.Proofs.Path.Relating
import MapChain.Proofs.Template.Reading

/-!
What passes over a template one after the other have in common with reading it once. Main statement:
they give the same text as long as each pass meets no placeholder but those of the template, and
otherwise they do not, unless the source is the base itself.
-/

set_option autoImplicit false

namespace MapChain.Template

variable {directory source base : Path} {template : String} {hole : Hole}
  {meaning : Hole → List Char} {chars text way name : List Char} {tokens noted last : List Token}

def meanings (directory source base : Path) : Hole → List Char
  | .absolute => source.slash.toList
  | .relative => (Path.relative directory base source).slash.toList
  | .base => source.fileName.toList

/-- Reads a template from the left, once. What is put in place of a placeholder is not read
again. -/
def renderOnce (directory : Path) (template : String) (source base : Path) : String :=
  (Path.mk (String.ofList (spell (meanings directory source base) (read template.toList)))).slash

def afterAbsolute (template : String) (source : Path) : List Char :=
  Search.replaceAll absolutePlaceholder.toList source.slash.toList template.toList

def afterRelative (directory : Path) (template : String) (source base : Path) : List Char :=
  Search.replaceAll relativePlaceholder.toList (Path.relative directory base source).slash.toList
    (afterAbsolute template source)

/-- A pass meets the placeholders of the template and no others, or leaves all as they are. -/
structure Undisturbed (directory : Path) (template : String) (source base : Path) : Prop where
  relative : meanings directory source base .relative = Hole.relative.word ∨
    Search.occurrences Hole.relative.word (afterAbsolute template source) =
      Search.occurrences Hole.relative.word template.toList
  base : meanings directory source base .base = Hole.base.word ∨
    Search.occurrences Hole.base.word (afterRelative directory template source base) =
      Search.occurrences Hole.base.word template.toList

theorem countP_slashed {kind : Char → Bool} (blind : kind '\\' = kind '/') (chars : List Char) :
    (Path.slashed chars).countP kind = chars.countP kind := by
  have same : (kind ∘ fun char => if char = '\\' then '/' else char) = kind := by
    funext char
    rw [Function.comp_apply]
    split
    next equal => rw [equal, blind]
    next => rfl
  rw [Path.slashed, List.countP_map, same]

theorem eq_of_slashed (clean : '/' ∉ text) (same : Path.slashed chars = text) : chars = text := by
  have solid : '\\' ∉ chars := by
    intro member
    have turned : '/' ∈ Path.slashed chars := List.mem_map.2 ⟨'\\', member, rfl⟩
    rw [same] at turned
    exact clean turned
  rw [← same, Path.slashed_of_clean solid]

theorem slash_not_mem_word (hole : Hole) : '/' ∉ hole.word ∧ '\\' ∉ hole.word := by
  cases hole <;> decide

/-- Where a placeholder is given a meaning of its own length, the text tells whether words have been
taken for placeholders. -/
theorem Notes.eq_or_same (notes : Notes hole tokens noted)
    (long : (meaning hole).length = hole.word.length)
    (alike : Path.slashed (spell meaning noted) = Path.slashed (spell meaning tokens)) :
    meaning hole = hole.word ∨ noted = tokens := by
  induction notes with
  | nil => exact Or.inr rfl
  | keep token rest induction =>
      rw [spell_cons, spell_cons, Path.slashed_append, Path.slashed_append,
        List.append_cancel_left_eq] at alike
      rcases induction alike with same | equal
      · exact Or.inl same
      · exact Or.inr (congrArg (token :: ·) equal)
  | note rest induction =>
      rw [spell_cons, spell_append, spell_literals, Token.spell, Path.slashed_append,
        Path.slashed_append] at alike
      have size : (Path.slashed (meaning hole)).length = (Path.slashed hole.word).length := by
        rw [Path.slashed, Path.slashed, List.length_map, List.length_map, long]
      have front := (List.append_inj alike size).1
      rw [Path.slashed_of_clean (slash_not_mem_word hole).2] at front
      exact Or.inl (eq_of_slashed (slash_not_mem_word hole).1 front)

/-- Words that have been taken for placeholders show in the text, unless there are none or the
placeholder stands for itself. -/
theorem Notes.eq_or_none {extra : Nat} (notes : Notes hole tokens noted)
    (more : noted.count (.slot hole) = tokens.count (.slot hole) + extra)
    (lengths : extra * hole.word.length = extra * (meaning hole).length)
    (alike : Path.slashed (spell meaning noted) = Path.slashed (spell meaning tokens)) :
    meaning hole = hole.word ∨ noted = tokens := by
  rcases Nat.eq_zero_or_pos extra with rfl | some
  · exact Or.inr (notes.eq_of_count (Nat.le_of_eq more))
  · exact notes.eq_or_same (Nat.eq_of_mul_eq_mul_left some lengths).symm alike

section Passes

variable (first : Notes .relative tokens noted)
  (second : Notes .base (fill .relative way noted) last)
  (alike : Path.slashed (spell Hole.word (fill .base name last)) =
    Path.slashed (spell Hole.word (fill .base name (fill .relative way tokens))))

include first second alike

/-- Where two passes come to the text that is wanted, what they have filled in beyond it cancels
out. -/
theorem excess_eq {relatives bases : Nat}
    (more : noted.count (.slot .relative) = tokens.count (.slot .relative) + relatives)
    (yet : last.count (.slot .base) = tokens.count (.slot .base) + bases)
    (kind : Char → Bool) (blind : kind '\\' = kind '/') :
    relatives * Hole.relative.word.countP kind + bases * Hole.base.word.countP kind =
      relatives * way.countP kind + bases * name.countP kind := by
  have total := congrArg (List.countP kind) alike
  rw [countP_slashed blind, countP_slashed blind] at total
  have late := countP_fill kind .base name last
  have early := countP_fill kind .relative way noted
  have wanted := countP_fill kind .base name (fill .relative way tokens)
  have before := countP_fill kind .relative way tokens
  rw [second.spell_eq, yet, Nat.add_mul, Nat.add_mul] at late
  rw [first.spell_eq, more, Nat.add_mul, Nat.add_mul] at early
  rw [count_fill (by decide)] at wanted
  omega

/-- Of the two passes one at least meets no more placeholders than were read. -/
theorem one_undisturbed {relatives bases : Nat}
    (more : noted.count (.slot .relative) = tokens.count (.slot .relative) + relatives)
    (yet : last.count (.slot .base) = tokens.count (.slot .base) + bases)
    (shape : '.' ∈ way ∨ '/' ∈ way ∨ way = name) : relatives = 0 ∨ bases = 0 := by
  have excess := excess_eq first second alike more yet
  -- A character that neither placeholder holds cannot be brought in.
  have foreign (kind : Char → Bool) (blind : kind '\\' = kind '/')
      (relative : Hole.relative.word.countP kind = 0) (base : Hole.base.word.countP kind = 0)
      (brought : 0 < way.countP kind) : relatives = 0 := by
    have balance := excess kind blind
    rw [relative, base, Nat.mul_zero, Nat.mul_zero] at balance
    rcases Nat.mul_eq_zero.1 (Nat.eq_zero_of_add_eq_zero_right balance.symm) with zero | none
    · exact zero
    · omega
  rcases shape with dot | slash | same
  · refine Or.inl (foreign (· = '.') (by decide) (by decide) (by decide) ?_)
    exact List.countP_pos_iff.2 ⟨'.', dot, by decide⟩
  · refine Or.inl (foreign (fun char => char = '/' || char = '\\') (by decide) (by decide)
      (by decide) ?_)
    exact List.countP_pos_iff.2 ⟨'/', slash, by decide⟩
  · -- One placeholder holds this letter once and the other one does not.
    have balance := excess (· = 'l') (by decide)
    have once : Hole.relative.word.countP (· = 'l') = 1 := by decide
    have never : Hole.base.word.countP (· = 'l') = 0 := by decide
    rw [once, never, same, Nat.mul_one, Nat.mul_zero, Nat.add_zero] at balance
    cases letters : name.countP (· = 'l') with
    | zero =>
        rw [letters, Nat.mul_zero, Nat.mul_zero] at balance
        exact Or.inl balance
    | succ count =>
        rw [letters, Nat.mul_succ, Nat.mul_succ] at balance
        exact Or.inr (by omega)

/-- Two passes that come to the text that is wanted have filled in what was read, or what they have
filled in stands for itself. -/
theorem undisturbed_of_alike (shape : '.' ∈ way ∨ '/' ∈ way ∨ way = name) :
    (way = Hole.relative.word ∨ noted = tokens) ∧
      (name = Hole.base.word ∨ last.count (.slot .base) = tokens.count (.slot .base)) := by
  obtain ⟨relatives, more⟩ := Nat.exists_eq_add_of_le first.count_le
  have between : (fill .relative way noted).count (.slot .base) = tokens.count (.slot .base) := by
    rw [count_fill (by decide), first.count_other (by decide)]
  have grown := second.count_le
  rw [between] at grown
  obtain ⟨bases, yet⟩ := Nat.exists_eq_add_of_le grown
  have lengths := excess_eq first second alike more yet (fun _ => true) rfl
  simp only [List.countP_true] at lengths
  rcases one_undisturbed first second alike more yet shape with rfl | rfl
  · have equal : noted = tokens := first.eq_of_count (Nat.le_of_eq more)
    rw [Nat.zero_mul, Nat.zero_mul, Nat.zero_add, Nat.zero_add] at lengths
    rw [← between] at yet
    rw [spell_fill, spell_fill, ← equal] at alike
    have settled := second.eq_or_none yet (by rw [Function.update_self, lengths]) alike
    rw [Function.update_self] at settled
    refine ⟨Or.inr equal, settled.imp id ?_⟩
    intro kept
    rw [kept, between]
  · have kept : last = fill .relative way noted := by
      apply second.eq_of_count
      rw [between, yet, Nat.add_zero]
    rw [Nat.zero_mul, Nat.zero_mul, Nat.add_zero, Nat.add_zero] at lengths
    rw [kept, spell_fill, spell_fill, spell_fill, spell_fill] at alike
    have settled := first.eq_or_none more (by rw [Function.update_self, lengths]) alike
    rw [Function.update_self] at settled
    exact ⟨settled, Or.inr (by rw [kept, between])⟩

end Passes

theorem head_subset_intercalate (piece : List Char) (pieces : List (List Char)) :
    piece ⊆ ['/'].intercalate (piece :: pieces) := by
  cases pieces with
  | nil => simp
  | cons next pieces =>
      rw [List.intercalate_cons_cons, List.append_assoc]
      exact List.subset_append_left piece _

theorem way_or_name (rooted : directory.isAbsolute = true) (settled : source.IsSettled)
    (apart : source ≠ Path.absolute directory base) :
    '.' ∈ meanings directory source base .relative ∨
      '/' ∈ meanings directory source base .relative ∨
      meanings directory source base .relative = meanings directory source base .base := by
  obtain ⟨common, back, ahead, -, toPlain, start, goal, way⟩ :=
    Path.of_relative rooted base source
  rw [Path.absolute_of_settled settled] at goal
  have plain := toPlain
  rw [List.forall_mem_append] at plain
  have written := Path.text_of_plain (Path.is_plain_of_way back.length plain.2)
  rw [← way] at written
  have turned : meanings directory source base .relative =
      Path.slashed (Path.relative directory base source).text.toList := Path.slash_chars _
  rw [turned, written]
  cases back with
  | cons step back =>
      rw [List.length_cons, List.replicate_succ, List.cons_append, List.map_cons]
      have dots : '.' ∈ Path.Component.up.text.toList := by decide
      exact Or.inl (List.mem_map.2 ⟨'.', head_subset_intercalate _ _ dots, rfl⟩)
  | nil =>
      right
      rw [List.append_nil] at start
      rw [List.length_nil, List.replicate_zero, List.nil_append]
      cases ahead with
      | nil =>
          rw [List.append_nil] at goal
          exact absurd (goal.trans start.symm) apart
      | cons part ahead =>
          cases ahead with
          | cons next ahead =>
              rw [List.map_cons, List.map_cons, List.intercalate_cons_cons, List.append_assoc]
              refine Or.inl (List.mem_map.2 ⟨'/', ?_, rfl⟩)
              exact List.mem_append_right _ (List.mem_append_left _ (List.mem_singleton.2 rfl))
          | nil =>
              have named := plain.2 part List.mem_cons_self
              obtain ⟨text, rfl⟩ := named.exists_text
              have called : source.fileName = text := by
                rw [goal, Path.fileName, Path.file_name_of_names plain.1 named, Option.getD_some]
              rw [meanings, called, List.map_singleton, List.intercalate_singleton]
              by_cases solid : '\\' ∈ text.toList
              · exact Or.inl (List.mem_map.2 ⟨'\\', solid, rfl⟩)
              · exact Or.inr (Path.slashed_of_clean solid)

theorem spell_meanings (directory source base : Path) (tokens : List Token) :
    spell (meanings directory source base) tokens =
      spell Hole.word (fill .base (meanings directory source base .base)
        (fill .relative (meanings directory source base .relative)
          (fill .absolute (meanings directory source base .absolute) tokens))) := by
  have all : meanings directory source base =
      Function.update (Function.update (Function.update Hole.word
        .base (meanings directory source base .base))
        .relative (meanings directory source base .relative))
        .absolute (meanings directory source base .absolute) := by
    funext hole
    cases hole <;> rfl
  rw [spell_fill, spell_fill, spell_fill, ← all]

/-- A pass fills in what was read, if it meets no more placeholders or changes none. -/
theorem replace_all_of_undisturbed (calm : text = hole.word ∨
    Search.occurrences hole.word (spell Hole.word tokens) = tokens.count (.slot hole)) :
    Search.replaceAll hole.word text (spell Hole.word tokens) =
      spell Hole.word (fill hole text tokens) := by
  rcases calm with same | counts
  · obtain ⟨noted, notes, -, replaced⟩ := replace_all_notes hole text tokens
    rw [replaced, spell_fill, spell_fill, same, Function.update_eq_self, notes.spell_eq]
  · exact replace_all_eq_fill text counts.symm

theorem after_absolute_eq (directory : Path) (template : String) (source base : Path) :
    afterAbsolute template source =
      spell Hole.word (fill .absolute (meanings directory source base .absolute)
        (read template.toList)) := by
  obtain ⟨whole, counts⟩ := read_complete template.toList
  have complete : (read template.toList).count (.slot .absolute) =
      Search.occurrences Hole.absolute.word (spell Hole.word (read template.toList)) := by
    rw [whole, counts]
  have replaced := replace_all_eq_fill source.slash.toList complete
  rw [whole] at replaced
  exact replaced

theorem after_relative_eq (directory : Path) (template : String) (source base : Path) :
    afterRelative directory template source base =
      Search.replaceAll Hole.relative.word (meanings directory source base .relative)
        (afterAbsolute template source) := rfl

theorem render_eq (directory : Path) (template : String) (source base : Path) :
    render directory template source base =
      (Path.mk (String.ofList (Search.replaceAll Hole.base.word
        (meanings directory source base .base)
        (afterRelative directory template source base)))).slash := rfl

/-- What is left to be done after the first pass: the text as it has been read from the template,
with all placeholders of the two other kinds that stand in the template. -/
theorem exists_opened (directory : Path) (template : String) (source base : Path) :
    ∃ tokens, afterAbsolute template source = spell Hole.word tokens ∧
      spell (meanings directory source base) (read template.toList) =
        spell Hole.word (fill .base (meanings directory source base .base)
          (fill .relative (meanings directory source base .relative) tokens)) ∧
      ∀ hole, hole ≠ .absolute →
        tokens.count (.slot hole) = Search.occurrences hole.word template.toList := by
  refine ⟨_, after_absolute_eq directory template source base,
    spell_meanings directory source base (read template.toList), ?_⟩
  intro hole different
  rw [count_fill different, (read_complete template.toList).2 hole]

/-- Filling in the placeholders one kind after the other gives the text of a template that is read
once, if no pass meets a placeholder that the template does not hold, or the placeholder stands for
itself. For a source in its shortest spelling that is not the base itself it does only then. -/
theorem filled_once_iff (directory : Path) (template : String) (source base : Path) :
    (Undisturbed directory template source base →
        render directory template source base = renderOnce directory template source base) ∧
      (directory.isAbsolute = true → source.IsSettled → source ≠ Path.absolute directory base →
        render directory template source base = renderOnce directory template source base →
          Undisturbed directory template source base) := by
  obtain ⟨tokens, opened, once, counts⟩ := exists_opened directory template source base
  have relatives := counts .relative (by decide)
  have bases := counts .base (by decide)
  have between := after_relative_eq directory template source base
  rw [opened] at between
  constructor
  · rintro ⟨relative, base⟩
    rw [opened, ← relatives] at relative
    rw [replace_all_of_undisturbed relative] at between
    rw [between, ← bases, ← count_fill (by decide : Hole.base ≠ Hole.relative)] at base
    rw [render_eq, between, replace_all_of_undisturbed base, renderOnce, once]
  · intro rooted settled apart alike
    obtain ⟨noted, first, early, filled⟩ := replace_all_notes .relative
      (meanings directory source base .relative) tokens
    rw [filled] at between
    obtain ⟨last, second, late, ended⟩ := replace_all_notes .base
      (meanings directory source base .base)
      (fill .relative (meanings directory source base .relative) noted)
    rw [render_eq, between, ended, renderOnce, once, ← String.toList_inj, Path.slash_chars,
      Path.slash_chars, String.toList_ofList, String.toList_ofList] at alike
    obtain ⟨relative, base⟩ :=
      undisturbed_of_alike first second alike (way_or_name rooted settled apart)
    refine ⟨relative.imp id ?_, base.imp id ?_⟩
    · intro same
      rw [opened, ← early, same, relatives]
    · intro same
      rw [between, ← late, same, bases]

/-- A template with two placeholders and a source in a directory of its own. -/
theorem sample_filled_once :
    Undisturbed ⟨"/w"⟩ "pack:[relative-path]?[base-path]" ⟨"/w/src/app.js"⟩ ⟨"/w"⟩ ∧
      renderOnce ⟨"/w"⟩ "pack:[relative-path]?[base-path]" ⟨"/w/src/app.js"⟩ ⟨"/w"⟩ =
        "pack:src/app.js?app.js" ∧
      render ⟨"/w"⟩ "pack:[relative-path]?[base-path]" ⟨"/w/src/app.js"⟩ ⟨"/w"⟩ =
        "pack:src/app.js?app.js" := by
  have calm : Undisturbed ⟨"/w"⟩ "pack:[relative-path]?[base-path]" ⟨"/w/src/app.js"⟩ ⟨"/w"⟩ :=
    ⟨Or.inr (by decide +kernel), Or.inr (by decide +kernel)⟩
  have once : renderOnce ⟨"/w"⟩ "pack:[relative-path]?[base-path]" ⟨"/w/src/app.js"⟩ ⟨"/w"⟩ =
      "pack:src/app.js?app.js" := by decide +kernel
  have filled := (filled_once_iff ⟨"/w"⟩ "pack:[relative-path]?[base-path]" ⟨"/w/src/app.js"⟩
    ⟨"/w"⟩).1 calm
  exact ⟨calm, once, filled.trans once⟩

/-- A directory called like a placeholder is taken for one by a later pass. -/
theorem directory_taken_for_placeholder :
    render ⟨"/w"⟩ "[relative-path]" ⟨"/w/src/[base-path]/app.js"⟩ ⟨"/w"⟩ = "src/app.js/app.js" ∧
      renderOnce ⟨"/w"⟩ "[relative-path]" ⟨"/w/src/[base-path]/app.js"⟩ ⟨"/w"⟩ =
        "src/[base-path]/app.js" := by
  decide +kernel

end MapChain.Template
