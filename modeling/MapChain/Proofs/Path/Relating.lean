import MapChain.Proofs.Path.Naming
import MapChain.Proofs.Text.Searching

/-!
The way from one directory to a file. It climbs to the last directory that both have in common and
goes down from there. Main statement: resolving the way from where it begins leads to the file, so
two files are never reached by the same way.
-/

set_option autoImplicit false

namespace MapChain.Path

variable {directory base path left right : Path} {parts names stack : List Component}

theorem of_apart {Part : Type} [DecidableEq Part] (lefts rights : List Part) :
    ∃ common, lefts = common ++ (apart lefts rights).1 ∧
      rights = common ++ (apart lefts rights).2 := by
  induction lefts generalizing rights with
  | nil => exact ⟨[], rfl, rfl⟩
  | cons left lefts induction =>
      cases rights with
      | nil => exact ⟨[], rfl, rfl⟩
      | cons right rights =>
          rw [apart]
          split
          next same =>
            obtain ⟨common, first, second⟩ := induction rights
            rw [← same]
            exact ⟨left :: common, congrArg (left :: ·) first, congrArg (left :: ·) second⟩
          next => exact ⟨[], rfl, rfl⟩

theorem text_of_plain (plain : ∀ part ∈ parts, part.IsPlain) :
    (ofComponents parts).text.toList = ['/'].intercalate (parts.map (·.text.toList)) := by
  have text : ofComponents parts = ⟨"/".intercalate (parts.map Component.text)⟩ := by
    cases parts with
    | nil => rfl
    | cons part parts =>
        cases part with
        | root =>
            have empty := (plain .root List.mem_cons_self).piece.2.1
            cases empty
        | here => rfl
        | up => rfl
        | name text => rfl
  have slash : "/".toList = ['/'] := by decide
  rw [text, String.toList_intercalate, List.map_map, slash]
  rfl

theorem is_absolute_of_plain (plain : ∀ part ∈ parts, part.IsPlain) :
    (ofComponents parts).isAbsolute = false := by
  rw [isAbsolute, text_of_plain plain, decide_eq_false_iff_not]
  cases parts with
  | nil => simp
  | cons part parts =>
      obtain ⟨single, filled, -⟩ := (plain part List.mem_cons_self).piece
      cases shape : part.text.toList with
      | nil =>
          rw [shape] at filled
          cases filled
      | cons char chars =>
          rw [shape, List.mem_cons, not_or] at single
          have opened : ∃ rest, ['/'].intercalate ((part :: parts).map (·.text.toList)) =
              char :: rest := by
            cases parts with
            | nil => exact ⟨chars, by simp [shape]⟩
            | cons next parts =>
                rw [List.map_cons, List.map_cons, List.intercalate_cons_cons, shape]
                exact ⟨_, rfl⟩
          obtain ⟨rest, opened⟩ := opened
          rw [opened, List.head?_cons, Option.some.injEq]
          exact Ne.symm single.1

theorem is_plain_up : Component.up.IsPlain := by
  rw [Component.IsPlain]
  decide

/-- As many steps up as there are names on top take just these names away. -/
theorem foldl_settle_ups (named : ∀ name ∈ names, name.isName = true) :
    (List.replicate names.length Component.up).foldl settle (names ++ stack) = stack := by
  induction names with
  | nil => rfl
  | cons name names induction =>
      rw [List.forall_mem_cons] at named
      obtain ⟨isName, others⟩ := named
      cases name with
      | name text =>
          rw [List.length_cons, List.replicate_succ, List.foldl_cons, List.cons_append]
          exact induction others
      | root => cases isName
      | here => cases isName
      | up => cases isName

theorem of_relative (rooted : directory.isAbsolute = true) (base target : Path) :
    ∃ common back ahead, (∀ name ∈ common ++ back, name.IsPlainName) ∧
      (∀ name ∈ common ++ ahead, name.IsPlainName) ∧
      absolute directory base = ofComponents (.root :: (common ++ back)) ∧
      absolute directory target = ofComponents (.root :: (common ++ ahead)) ∧
      relative directory base target =
        ofComponents (List.replicate back.length .up ++ ahead) := by
  obtain ⟨baseNames, fromPlain, fromEq⟩ :=
    (is_settled_resolve rooted directory base).exists_names
  obtain ⟨targetNames, toPlain, toEq⟩ :=
    (is_settled_resolve rooted directory target).exists_names
  have parted : apart (.root :: baseNames) (.root :: targetNames) =
      apart baseNames targetNames := by
    rw [apart, if_pos rfl]
  obtain ⟨common, first, second⟩ := of_apart baseNames targetNames
  refine ⟨common, (apart baseNames targetNames).1, (apart baseNames targetNames).2, ?_, ?_, ?_, ?_,
    ?_⟩
  · rwa [← first]
  · rwa [← second]
  · rw [← first]
    exact fromEq
  · rw [← second]
    exact toEq
  · have start : absolute directory base = ofComponents (.root :: baseNames) := fromEq
    have goal : absolute directory target = ofComponents (.root :: targetNames) := toEq
    rw [relative, start, goal, components_of_names fromPlain, components_of_names toPlain, parted]
    dsimp only
    rw [List.map_const']

theorem is_plain_of_way (count : Nat) (plain : ∀ name ∈ names, name.IsPlainName) :
    ∀ part ∈ List.replicate count Component.up ++ names, part.IsPlain := by
  intro part member
  rcases List.mem_append.1 member with up | name
  · rw [List.eq_of_mem_replicate up]
    exact is_plain_up
  · exact (plain part name).2

/-- The way to a file, taken from where it begins, leads to that file. -/
theorem resolve_relative (rooted : directory.isAbsolute = true) (base target : Path) :
    resolve directory (absolute directory base) (relative directory base target) =
      absolute directory target := by
  obtain ⟨common, back, ahead, fromPlain, toPlain, start, goal, way⟩ :=
    of_relative rooted base target
  have fromNamed : ∀ name ∈ common ++ back, name.isName = true :=
    fun name member => (fromPlain name member).1
  have settledStart := is_settled_of_names fromPlain
  rw [List.forall_mem_append] at toPlain
  have plain := is_plain_of_way back.length toPlain.2
  have backNamed : ∀ name ∈ back.reverse, name.isName = true := by
    intro name member
    exact fromNamed name (List.mem_append_right common (List.mem_reverse.1 member))
  have aheadNamed : ∀ name ∈ ahead, name.isName = true :=
    fun name member => (toPlain.2 name member).1
  have climbed : (List.replicate back.length Component.up).foldl settle
      ((common ++ back).reverse ++ [.root]) = common.reverse ++ [.root] := by
    rw [List.reverse_append, List.append_assoc, ← List.length_reverse]
    exact foldl_settle_ups backNamed
  have walked : settled ((.root :: (common ++ back)) ++
      (List.replicate back.length .up ++ ahead)) = .root :: (common ++ ahead) := by
    have bottom : settle [] .root = [.root] := rfl
    rw [settled, List.cons_append, List.foldl_cons, bottom, List.foldl_append,
      List.foldl_append, foldl_settle_names fromNamed, climbed, foldl_settle_names aheadNamed,
      List.reverse_append, List.reverse_append, List.reverse_reverse, List.reverse_reverse]
    rfl
  have written := text_ne_empty settledStart.absolute
  have relative := is_absolute_of_plain plain
  rw [start, way, goal, resolve, if_neg (by simp [relative]), if_pos settledStart.absolute,
    normalize, components_join written relative, components_of_names fromPlain,
    text_of_plain plain, parts_of_intercalate plain, walked]

theorem absolute_of_settled (settled : path.IsSettled) (directory : Path) :
    absolute directory path = path := by
  rw [absolute, resolve, if_pos settled.absolute]
  exact settled.fixed

end MapChain.Path
