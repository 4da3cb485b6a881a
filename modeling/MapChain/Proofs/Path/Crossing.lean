import MapChain.Proofs.Path.Locating

/-!
The way from a directory, in whatever spelling, to a file. Main statement: it climbs just as far as
the directory lies below all that it has in common with the file, then it only goes down, and it
leads to the file.
-/

set_option autoImplicit false

namespace MapChain.Path

variable {directory source target : Path} {names : List Component}

/-- What two lists are apart in is all that the first one has behind any common beginning. -/
theorem length_add_apart_le {Part : Type} [DecidableEq Part] {shared lefts rights : List Part}
    (first : shared <+: lefts) (second : shared <+: rights) :
    shared.length + (apart lefts rights).1.length ≤ lefts.length := by
  induction shared generalizing lefts rights with
  | nil =>
      obtain ⟨common, whole, -⟩ := of_apart lefts rights
      have total := congrArg List.length whole
      rw [List.length_append] at total
      rw [List.length_nil]
      omega
  | cons part shared induction =>
      obtain ⟨left, rfl, early⟩ := List.cons_prefix_iff.1 first
      obtain ⟨right, rfl, late⟩ := List.cons_prefix_iff.1 second
      have inner := induction early late
      rw [apart, if_pos rfl, List.length_cons, List.length_cons]
      omega

theorem prefix_of_apart {Part : Type} [DecidableEq Part] (lefts rights : List Part) :
    ∃ common, lefts = common ++ (apart lefts rights).1 ∧
      rights = common ++ (apart lefts rights).2 ∧
      ∀ shared, shared <+: lefts → shared <+: rights → shared.length ≤ common.length := by
  obtain ⟨common, left, right⟩ := of_apart lefts rights
  refine ⟨common, left, right, ?_⟩
  intro shared first second
  have bound := length_add_apart_le first second
  have total := congrArg List.length left
  rw [List.length_append] at total
  omega

theorem is_plain_name_of_apart (first : source.IsSettled) (second : target.IsSettled) :
    ∀ part ∈ (apart source.components target.components).2, part.IsPlainName := by
  obtain ⟨sourceNames, fromPlain, rfl⟩ := first.exists_names
  obtain ⟨targetNames, toPlain, rfl⟩ := second.exists_names
  rw [components_of_names fromPlain, components_of_names toPlain, apart, if_pos rfl]
  obtain ⟨common, -, right⟩ := of_apart sourceNames targetNames
  intro part member
  apply toPlain
  rw [right]
  exact List.mem_append_right common member

/-- The way from a directory to a file leads to the file. It consists of as many steps up as the
directory has parts beyond the longest beginning that it has in common with the file, and of names
behind them. -/
theorem way_climbs_and_descends (rooted : directory.isAbsolute = true) (source target : Path) :
    resolve directory source (relative directory source target) = absolute directory target ∧
      ∃ common back ahead, (absolute directory source).components = common ++ back ∧
        (absolute directory target).components = common ++ ahead ∧
        (∀ shared, shared <+: (absolute directory source).components →
          shared <+: (absolute directory target).components → shared.length ≤ common.length) ∧
        (∀ part ∈ ahead, part.isName = true) ∧
        (relative directory source target).components =
          List.replicate back.length .up ++ ahead := by
  constructor
  · rw [← resolve_absolute rooted, resolve_relative rooted]
  · have start : (absolute directory source).IsSettled := is_settled_resolve rooted directory source
    have goal : (absolute directory target).IsSettled := is_settled_resolve rooted directory target
    have plain := is_plain_name_of_apart start goal
    obtain ⟨common, left, right, longest⟩ := prefix_of_apart
      (absolute directory source).components (absolute directory target).components
    refine ⟨common, _, _, left, right, longest, fun part member => (plain part member).1, ?_⟩
    rw [← components_of_plain (is_plain_of_way _ plain), ← List.map_const']
    rfl

/-- Out of one directory and into another, where both are spelled with detours. -/
theorem detours_crossed :
    Path.isAbsolute ⟨"/w"⟩ = true ∧
      resolve ⟨"/w"⟩ ⟨"a/./b/../c"⟩ (relative ⟨"/w"⟩ ⟨"a/./b/../c"⟩ ⟨"../w/a//d.js"⟩) =
        ⟨"/w/a/d.js"⟩ ∧
      relative ⟨"/w"⟩ ⟨"a/./b/../c"⟩ ⟨"../w/a//d.js"⟩ = ⟨"../d.js"⟩ ∧
      ∃ common back ahead, (absolute ⟨"/w"⟩ ⟨"a/./b/../c"⟩).components = common ++ back ∧
        3 ≤ common.length ∧ (relative ⟨"/w"⟩ ⟨"a/./b/../c"⟩ ⟨"../w/a//d.js"⟩).components =
          List.replicate back.length .up ++ ahead := by
  have rooted : Path.isAbsolute ⟨"/w"⟩ = true := by decide
  obtain ⟨reached, common, back, ahead, left, -, longest, -, way⟩ :=
    way_climbs_and_descends rooted ⟨"a/./b/../c"⟩ ⟨"../w/a//d.js"⟩
  have start : (absolute ⟨"/w"⟩ ⟨"a/./b/../c"⟩).components =
      [.root, .name "w", .name "a", .name "c"] := by decide +kernel
  have goal : (absolute ⟨"/w"⟩ ⟨"../w/a//d.js"⟩).components =
      [.root, .name "w", .name "a", .name "d.js"] := by decide +kernel
  have shared := longest [.root, .name "w", .name "a"]
  rw [start, goal] at shared
  refine ⟨rooted, ?_, by decide +kernel, common, back, ahead, left, ?_, way⟩
  · rw [reached]
    decide +kernel
  · exact shared ⟨[.name "c"], rfl⟩ ⟨[.name "d.js"], rfl⟩

end MapChain.Path
