import MapChain.Proofs.Path.Relating

/-!
Where paths lead. A path is walked part by part: a name leads down, two dots lead up as far as that
goes, and the root begins anew. Main statements: resolving writes down where the walk ends, so it
makes no difference which part of a path is resolved first, and two spellings are resolved to one
path just when they lead to one place.
-/

set_option autoImplicit false

namespace MapChain.Path

variable {directory base path : Path} {part : Component} {parts names : List Component}

/-- One step of a walk over addresses, which are the names from the root down. -/
def step (address : List String) : Component → List String
  | .root => []
  | .here => address
  | .up => address.dropLast
  | .name text => address ++ [text]

def walk (address : List String) (path : Path) : List String := path.components.foldl step address

def location (directory base path : Path) : List String :=
  walk (walk (walk [] directory) base) path

theorem lead_of_relative (relative : path.isAbsolute = false) :
    leadComponents (lead path.text.toList) = [] ∨
      leadComponents (lead path.text.toList) = [.here] := by
  unfold isAbsolute at relative
  unfold lead
  split
  next rest text =>
    rw [text] at relative
    cases relative
  · exact Or.inr rfl
  · exact Or.inr rfl
  · exact Or.inl rfl

theorem walk_eq (address : List String) (path : Path) :
    walk address path =
      (partsOf path.text.toList).foldl step (if path.isAbsolute then [] else address) := by
  by_cases absolute : path.isAbsolute = true
  · rw [walk, components_of_is_absolute absolute, if_pos absolute, List.foldl_cons, step]
  · have relative : path.isAbsolute = false := Bool.eq_false_iff.2 absolute
    rw [walk, components_eq, List.foldl_append, if_neg absolute]
    rcases lead_of_relative relative with bare | dotted
    · rw [bare, List.foldl_nil]
    · rw [dotted, List.foldl_cons, List.foldl_nil, step]

theorem walk_of_is_absolute (absolute : path.isAbsolute = true) (address : List String) :
    walk address path = walk [] path := by
  rw [walk_eq, walk_eq [], if_pos absolute, if_pos absolute]

theorem walk_join (address : List String) (base path : Path) :
    walk address (base.join path) = walk (walk address base) path := by
  by_cases absolute : path.isAbsolute = true
  · rw [join_of_is_absolute base absolute, walk_of_is_absolute absolute,
      walk_of_is_absolute absolute (walk address base)]
  · by_cases written : base.text = ""
    · have stays : walk address base = address := by
        rw [walk, (text_eq_empty_iff base).1 written, List.foldl_nil]
      rw [join_of_empty written, stays]
    · have relative : path.isAbsolute = false := Bool.eq_false_iff.2 absolute
      rw [walk_eq (walk address base), if_neg absolute, walk, components_join written relative,
        List.foldl_append, walk]

theorem foldl_step_names (address texts : List String) :
    (texts.map Component.name).foldl step address = address ++ texts := by
  induction texts generalizing address with
  | nil => simp
  | cons text texts induction =>
      rw [List.map_cons, List.foldl_cons, step, induction, List.append_assoc,
        List.singleton_append]

/-- Above the root, settling a part is a step of the walk. -/
theorem settle_eq_step (address : List String) (part : Component) :
    settle ((address.map Component.name).reverse ++ [.root]) part =
      ((step address part).map Component.name).reverse ++ [.root] := by
  cases part with
  | root => rfl
  | here => rfl
  | name text => simp [settle, step]
  | up =>
      rcases address.eq_nil_or_concat with rfl | ⟨above, last, rfl⟩
      · rfl
      · simp [settle, step]

/-- An absolute path settles down to the names of where it leads. -/
theorem settled_eq_walk (absolute : path.isAbsolute = true) :
    settled path.components = .root :: (walk [] path).map Component.name := by
  have folded (parts : List Component) (address : List String) :
      parts.foldl settle ((address.map Component.name).reverse ++ [.root]) =
        ((parts.foldl step address).map Component.name).reverse ++ [.root] := by
    induction parts generalizing address with
    | nil => rfl
    | cons part parts induction =>
        rw [List.foldl_cons, settle_eq_step, induction, List.foldl_cons]
  have bottom := folded (partsOf path.text.toList) []
  rw [List.map_nil, List.reverse_nil, List.nil_append] at bottom
  have begun : settle [] .root = [.root] := rfl
  rw [walk_eq, if_pos absolute, components_of_is_absolute absolute, settled, List.foldl_cons, begun,
    bottom, List.reverse_append, List.reverse_reverse, List.reverse_singleton,
    List.singleton_append]

theorem walk_normalize (absolute : path.isAbsolute = true) (address : List String) :
    walk address (normalize path) = walk [] path := by
  obtain ⟨names, plain, same⟩ := settled_of_is_absolute absolute
  have found := settled_eq_walk absolute
  rw [same, List.cons_inj_right] at found
  rw [walk, normalize, same, components_of_names plain, List.foldl_cons, step, found,
    foldl_step_names, List.nil_append]

theorem resolve_eq_normalize (directory base path : Path) :
    resolve directory base path = normalize ((directory.join base).join path) := by
  unfold resolve
  split
  next given => rw [join_of_is_absolute _ given]
  · split
    next based => rw [join_of_is_absolute directory based]
    · rfl

theorem resolve_eq_location (rooted : directory.isAbsolute = true) (base path : Path) :
    resolve directory base path =
      ofComponents (.root :: (location directory base path).map Component.name) := by
  have absolute := is_absolute_join (is_absolute_join rooted base) path
  rw [resolve_eq_normalize, normalize, settled_eq_walk absolute, walk_join, walk_join, location]

theorem walk_resolve (rooted : directory.isAbsolute = true) (address : List String)
    (base path : Path) :
    walk address (resolve directory base path) = location directory base path := by
  have absolute := is_absolute_join (is_absolute_join rooted base) path
  rw [resolve_eq_normalize, walk_normalize absolute, walk_join, walk_join, location]

theorem resolve_eq_iff (rooted : directory.isAbsolute = true) (base path other spelling : Path) :
    resolve directory base path = resolve directory other spelling ↔
      location directory base path = location directory other spelling := by
  constructor
  · intro same
    rw [← walk_resolve rooted [], same, walk_resolve rooted]
  · intro same
    rw [resolve_eq_location rooted, same, ← resolve_eq_location rooted]

theorem same_resolve_iff (rooted : directory.isAbsolute = true)
    (base path other spelling : Path) :
    Same (resolve directory base path) (resolve directory other spelling) ↔
      resolve directory base path = resolve directory other spelling := by
  constructor
  · intro same
    rw [← (is_settled_resolve rooted base path).fixed, same.normalize,
      (is_settled_resolve rooted other spelling).fixed]
  · intro same
    rw [Same, same]

/-- The base of a resolved path may be resolved first, or the path joined to what comes behind. -/
theorem resolve_resolve (rooted : directory.isAbsolute = true) (base path rest : Path) :
    resolve directory (resolve directory base path) rest =
      resolve directory base (path.join rest) := by
  rw [resolve_eq_iff rooted, location, walk_resolve rooted, location, location, walk_join]

theorem resolve_absolute (rooted : directory.isAbsolute = true) (base path : Path) :
    resolve directory (absolute directory base) path = resolve directory base path := by
  rw [resolve_eq_iff rooted, location, absolute, walk_resolve rooted, location, location,
    walk_of_is_absolute rooted (walk [] directory)]

theorem components_of_plain (plain : ∀ part ∈ parts, part.IsPlain) :
    (ofComponents parts).components = parts := by
  have bare : lead (['/'].intercalate (parts.map (·.text.toList))) = [] := by
    cases parts with
    | nil => rfl
    | cons part parts =>
        obtain ⟨single, filled, -⟩ := (plain part List.mem_cons_self).piece
        have alone : lead part.text.toList = [] := by
          unfold lead
          split
          next rest text => simp [text] at single
          next text => simp [text, isTrivial] at filled
          next rest text => simp [text] at single
          · rfl
        cases parts with
        | nil => simpa using alone
        | cons next parts =>
            have written : part.text.toList ≠ [] := by
              intro empty
              rw [empty] at filled
              cases filled
            rw [List.map_cons, List.map_cons, List.intercalate_cons_cons, List.append_assoc,
              List.singleton_append, lead_append_slash written, alone]
  rw [components_eq, text_of_plain plain, bare, parts_of_intercalate plain]
  rfl

/-- Without a root, steps up pile up where there is no name to take away. -/
theorem settle_above_climb (count : Nat) (plain : ∀ name ∈ names, name.IsPlainName)
    (inner : part.isPart = true) (alone : part.IsPlain) :
    ∃ steps next, settle (names ++ List.replicate count .up) part =
        next ++ List.replicate steps .up ∧ ∀ name ∈ next, name.IsPlainName := by
  cases part with
  | root => cases inner
  | here => cases inner
  | name text =>
      refine ⟨count, .name text :: names, rfl, ?_⟩
      rw [List.forall_mem_cons]
      exact ⟨⟨rfl, alone⟩, plain⟩
  | up =>
      cases names with
      | nil =>
          refine ⟨count + 1, [], ?_, plain⟩
          cases count <;> rfl
      | cons top below =>
          rw [List.forall_mem_cons] at plain
          obtain ⟨⟨isName, -⟩, others⟩ := plain
          cases top with
          | name text => exact ⟨count, below, rfl, others⟩
          | root => cases isName
          | here => cases isName
          | up => cases isName

theorem foldl_settle_above_climb (count : Nat) (plain : ∀ name ∈ names, name.IsPlainName)
    (inner : ∀ part ∈ parts, part.isPart = true) (alone : ∀ part ∈ parts, part.IsPlain) :
    ∃ steps left, parts.foldl settle (names ++ List.replicate count .up) =
        left ++ List.replicate steps .up ∧ ∀ name ∈ left, name.IsPlainName := by
  induction parts generalizing names count with
  | nil => exact ⟨count, names, rfl, plain⟩
  | cons part parts induction =>
      rw [List.forall_mem_cons] at inner alone
      obtain ⟨steps, next, settled, still⟩ := settle_above_climb count plain inner.1 alone.1
      rw [List.foldl_cons, settled]
      exact induction steps still inner.2 alone.2

theorem settled_of_relative (relative : path.isAbsolute = false) :
    ∃ steps names, (∀ name ∈ names, name.IsPlainName) ∧
      settled path.components = List.replicate steps .up ++ names := by
  have inner : ∀ part ∈ partsOf path.text.toList, part.isPart = true := by
    rw [parts_of_components]
    exact fun part member => (List.mem_filter.1 member).2
  have begun : (leadComponents (lead path.text.toList)).foldl settle [] = [] := by
    rcases lead_of_relative relative with bare | dotted
    · rw [bare, List.foldl_nil]
    · rw [dotted]
      rfl
  have nameless : ∀ name ∈ ([] : List Component), name.IsPlainName := by simp
  obtain ⟨steps, left, ended, known⟩ :=
    foldl_settle_above_climb 0 nameless inner fun part member => is_plain_of_mem_parts member
  rw [List.replicate_zero, List.append_nil] at ended
  refine ⟨steps, left.reverse, fun name member => known name (List.mem_reverse.1 member), ?_⟩
  rw [components_eq, settled, List.foldl_append, begun, ended, List.reverse_append,
    List.reverse_replicate]

theorem foldl_settle_climb (count steps : Nat) :
    (List.replicate steps Component.up).foldl settle (List.replicate count .up) =
      List.replicate (count + steps) .up := by
  induction steps generalizing count with
  | zero => rfl
  | succ steps induction =>
      have higher : settle (List.replicate count .up) .up = List.replicate (count + 1) .up := by
        cases count <;> rfl
      rw [List.replicate_succ, List.foldl_cons, higher, induction]
      congr 1
      omega

theorem settled_climb (steps : Nat) (named : ∀ name ∈ names, name.isName = true) :
    settled (List.replicate steps .up ++ names) = List.replicate steps .up ++ names := by
  have climbed := foldl_settle_climb 0 steps
  rw [List.replicate_zero, Nat.zero_add] at climbed
  rw [settled, List.foldl_append, climbed, foldl_settle_names named, List.reverse_append,
    List.reverse_reverse, List.reverse_replicate]

/-- A normalized path is its root, or steps up, and names behind. -/
theorem components_normalize (path : Path) :
    ∃ steps names, (∀ name ∈ names, name.IsPlainName) ∧
      (normalize path).components =
        (if path.isAbsolute then [.root] else List.replicate steps .up) ++ names ∧
      settled (normalize path).components = settled path.components := by
  by_cases absolute : path.isAbsolute = true
  · obtain ⟨names, plain, same⟩ := settled_of_is_absolute absolute
    refine ⟨0, names, plain, ?_, ?_⟩
    · rw [normalize, same, components_of_names plain, if_pos absolute, List.singleton_append]
    · rw [normalize, same, components_of_names plain,
        settled_names fun name member => (plain name member).1]
  · have relative : path.isAbsolute = false := Bool.eq_false_iff.2 absolute
    obtain ⟨steps, names, plain, same⟩ := settled_of_relative relative
    have read := components_of_plain (is_plain_of_way steps plain)
    refine ⟨steps, names, plain, ?_, ?_⟩
    · rw [normalize, same, read, if_neg absolute]
    · rw [normalize, same, read, settled_climb steps fun name member => (plain name member).1]

theorem is_absolute_normalize (path : Path) : (normalize path).isAbsolute = path.isAbsolute := by
  obtain ⟨steps, names, plain, shape, -⟩ := components_normalize path
  rw [Bool.eq_iff_iff, is_absolute_iff, shape]
  by_cases absolute : path.isAbsolute = true
  · rw [if_pos absolute]
    exact ⟨fun _ => absolute, fun _ => rfl⟩
  · rw [if_neg absolute]
    refine ⟨fun first => ?_, fun given => absurd given absolute⟩
    cases steps with
    | succ steps => cases first
    | zero =>
        have member := plain _ (List.mem_of_head? first)
        cases member.1

/-- Normalizing is canonical, and resolving is associative: a normalized path is normalized already,
it is absolute just when the path is, has no single dot, and two dots only before all names and
behind no root; a base may be resolved before the rest of a path is; what is resolved is absolute
and normalized; and two spellings are resolved to one path just when they lead to one place. -/
theorem resolving_is_canonical (rooted : directory.isAbsolute = true) :
    (∀ path, normalize (normalize path) = normalize path ∧
        (normalize path).isAbsolute = path.isAbsolute ∧ .here ∉ (normalize path).components ∧
        ∃ steps names, (∀ name ∈ names, name.isName = true) ∧
          (normalize path).components =
            (if path.isAbsolute then [.root] else List.replicate steps .up) ++ names) ∧
      (∀ base path rest, resolve directory (resolve directory base path) rest =
        resolve directory base (path.join rest)) ∧
      (∀ base path, (resolve directory base path).isAbsolute = true ∧
        normalize (resolve directory base path) = resolve directory base path) ∧
      ∀ base path other spelling,
        (Same (resolve directory base path) (resolve directory other spelling) ↔
          location directory base path = location directory other spelling) ∧
        (resolve directory base path = resolve directory other spelling ↔
          location directory base path = location directory other spelling) := by
  refine ⟨fun path => ⟨?_, is_absolute_normalize path, ?_, ?_⟩, resolve_resolve rooted, ?_, ?_⟩
  · obtain ⟨-, -, -, -, again⟩ := components_normalize path
    exact congrArg ofComponents again
  · obtain ⟨steps, names, plain, shape, -⟩ := components_normalize path
    rw [shape, List.mem_append, not_or]
    constructor
    · split <;> simp
    · intro member
      cases (plain .here member).1
  · obtain ⟨steps, names, plain, shape, -⟩ := components_normalize path
    exact ⟨steps, names, fun name member => (plain name member).1, shape⟩
  · intro base path
    have settled := is_settled_resolve rooted base path
    exact ⟨settled.absolute, settled.fixed⟩
  · intro base path other spelling
    rw [same_resolve_iff rooted]
    exact ⟨resolve_eq_iff rooted base path other spelling,
      resolve_eq_iff rooted base path other spelling⟩

/-- A path that climbs beyond the root, taken apart before a part that does not begin with a
name. -/
theorem climbing_resolved_in_parts :
    Path.isAbsolute ⟨"/w"⟩ = true ∧
      resolve ⟨"/w"⟩ (resolve ⟨"/w"⟩ ⟨"x//y"⟩ ⟨"../../../.."⟩) ⟨"./a/../b"⟩ =
        resolve ⟨"/w"⟩ ⟨"x//y"⟩ ⟨"../../../.././a/../b"⟩ ∧
      resolve ⟨"/w"⟩ ⟨"x//y"⟩ ⟨"../../../.././a/../b"⟩ = ⟨"/b"⟩ ∧
      (normalize ⟨"./a/../../b/"⟩).isAbsolute = false ∧
      normalize (normalize ⟨"./a/../../b/"⟩) = ⟨"../b"⟩ := by
  have rooted : Path.isAbsolute ⟨"/w"⟩ = true := by decide
  obtain ⟨normal, parts, -, alike⟩ := resolving_is_canonical rooted
  obtain ⟨fixed, kind, -, -⟩ := normal ⟨"./a/../../b/"⟩
  have joined : Path.join ⟨"../../../.."⟩ ⟨"./a/../b"⟩ = ⟨"../../../.././a/../b"⟩ := by
    decide +kernel
  have ends : location ⟨"/w"⟩ ⟨"x//y"⟩ ⟨"../../../.././a/../b"⟩ = location ⟨"/w"⟩ ⟨"/"⟩ ⟨"b"⟩ := by
    decide +kernel
  refine ⟨rooted, ?_, ?_, ?_, ?_⟩
  · rw [parts, joined]
  · rw [(alike _ _ _ _).2.2 ends]
    decide +kernel
  · rw [kind]
    decide
  · rw [fixed]
    decide +kernel

end MapChain.Path
