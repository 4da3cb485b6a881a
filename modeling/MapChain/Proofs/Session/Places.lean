import MapChain.Proofs.Path.Joining
import MapChain.Session.Load

/-!
The places in which the sources of a map are looked for. Main statement: leaving out roots that
are given twice changes no choice among the candidates.
-/

set_option autoImplicit false

namespace MapChain

variable {files : FileSystem} {directory : Path} {options : Options}

def Session.places (directory : Path) (options : Options) (origin : Option Path) : List Path :=
  (origin.map (Path.parentOr directory)).toList ++
    options.sourceRoots.map (Path.absolute directory) ++ [directory]

def SourceMap.locate (directory : Path) (map : SourceMap) (source : String) (place : Path) : Path :=
  Path.resolve directory
    (Path.resolve directory place ⟨Path.withoutFileProtocol (map.sourceRoot.getD "")⟩)
    ⟨Path.withoutFileProtocol source⟩

def SourceMap.candidates (directory : Path) (options : Options) (origin : Option Path)
    (map : SourceMap) (source : String) : List Path :=
  (Session.places directory options origin).map (map.locate directory source)

theorem locate_congr {left right : Path} (same : Path.Same left right) (map : SourceMap)
    (source : String) : map.locate directory source left = map.locate directory source right := by
  unfold SourceMap.locate
  rw [same.resolve]

theorem head_eq_find {Element : Type} (list : List Element) :
    list.head? = list.find? fun _ => true := by
  cases list <;> rfl

theorem pick_source_congr {left right : List Path}
    (alike : ∀ chosen : Path → Bool, left.find? chosen = right.find? chosen) :
    pickSource files left = pickSource files right := by
  unfold pickSource
  rw [head_eq_find, head_eq_find, alike, alike]

namespace Session

variable {place : Path → Path}

theorem find_add_distinct (alike : ∀ left right, Path.Same left right → place left = place right)
    (chosen : Path → Bool) (paths : List Path) (path : Path) :
    ((addDistinct paths path).map place).find? chosen =
      ((paths ++ [path]).map place).find? chosen := by
  unfold addDistinct
  split
  next known =>
    obtain ⟨old, member, same⟩ := List.any_eq_true.1 known
    have again : place old = place path := alike old path (of_decide_eq_true same)
    rw [List.map_append, List.find?_append]
    cases found : (paths.map place).find? chosen with
    | some first => rfl
    | none =>
        have passed := List.find?_eq_none.1 found (place old) (List.mem_map_of_mem member)
        rw [again] at passed
        simp [passed]
  next => rfl

theorem find_add_all_distinct
    (alike : ∀ left right, Path.Same left right → place left = place right)
    (chosen : Path → Bool) (known paths : List Path) :
    ((paths.foldl addDistinct known).map place).find? chosen =
      ((known ++ paths).map place).find? chosen := by
  induction paths generalizing known with
  | nil => rw [List.append_nil, List.foldl_nil]
  | cons path paths induction =>
      rw [List.foldl_cons, induction, List.map_append, List.find?_append,
        find_add_distinct alike, ← List.find?_append, ← List.map_append, List.append_assoc,
        List.singleton_append]

theorem pick_source_candidates (files : FileSystem) (directory : Path) (options : Options)
    (origin : Option Path) (map : SourceMap) (source : String) :
    pickSource files
        (sourceCandidates directory (searchRoots directory options.sourceRoots) origin map source) =
      pickSource files (map.candidates directory options origin source) := by
  apply pick_source_congr
  intro chosen
  have alike (left right : Path) (same : Path.Same left right) :
      map.locate directory source left = map.locate directory source right :=
    locate_congr same map source
  have roots := find_add_all_distinct alike chosen []
    (options.sourceRoots.map (Path.absolute directory) ++ [directory])
  change (((origin.map (Path.parentOr directory)).toList ++
    searchRoots directory options.sourceRoots).map (map.locate directory source)).find? chosen = _
  unfold SourceMap.candidates places
  rw [List.append_assoc, List.map_append, List.find?_append, searchRoots, roots, List.nil_append,
    ← List.find?_append, ← List.map_append]

theorem pick_source_ne_none (files : FileSystem) (directory : Path) (options : Options)
    (origin : Option Path) (map : SourceMap) (source : String) :
    ∃ path, pickSource files (map.candidates directory options origin source) = some path := by
  have written : map.candidates directory options origin source ≠ [] := by
    simp [SourceMap.candidates, places]
  obtain ⟨first, rest, whole⟩ := List.exists_cons_of_ne_nil written
  unfold pickSource
  rw [whole]
  cases (first :: rest).find? files.holds with
  | some path => exact ⟨path, rfl⟩
  | none => exact ⟨first, rfl⟩

end Session

end MapChain
