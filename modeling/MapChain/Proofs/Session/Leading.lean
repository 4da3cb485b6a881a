import MapChain.Proofs.Session.Consistency
import MapChain.Proofs.Session.Origins
import MapChain.Proofs.SourceMap.Shrinking
import Mathlib.Algebra.Order.BigOperators.Group.List
import Mathlib.Data.Finset.Card
import Mathlib.Data.Finset.Filter
import Mathlib.Logic.Relation

/-!
Texts without a path that lead to other ones. A text refers to a map, and the map carries contents
for sources that have no path either. Main statement: every text has a weight, and what it leads to
weighs less, unless that leads back to itself.
-/

set_option autoImplicit false

namespace MapChain

variable {files : FileSystem} {directory : Path} {roots : List Path}

namespace Request

variable {request : Request} {fetched : Fetched}

theorem map_of_fetch (answered : request.fetch files directory roots = .ok fetched) :
    request.fetchMap files directory (request.fetchContent files) = .ok fetched.map ∧
      (fetched.map = none → fetched.children = []) := by
  unfold fetch at answered
  cases found : request.fetchMap files directory (request.fetchContent files) with
  | error fault =>
      simp only [found] at answered
      cases answered
  | ok map =>
      simp only [found] at answered
      cases answered
      refine ⟨rfl, ?_⟩
      intro bare
      change map = none at bare
      rw [bare]
      rfl

theorem fetch_of_map {map : SourceMap} (mapped : request.fetchMap files directory
      (request.fetchContent files) = .ok (some map)) :
    request.fetch files directory roots = .ok ⟨request.id, request.fetchContent files, some map,
      request.fetchChildren files directory roots map⟩ := by
  simp only [fetch, mapped]
  rfl

theorem fetch_map_of_external {content url : String} {file : Path} {map : Option SourceMap}
    (bare : request.map = none) (found : Reference.findUrl? content = some url)
    (external : Reference.isDataUrl url = false)
    (located : Path.resolve directory (originDirectory directory request.path)
      ⟨Path.withoutFileProtocol (Reference.decodeUrl url)⟩ = file)
    (read : readMap files file = .ok map) :
    request.fetchMap files directory (some content) = .ok map := by
  have referred : mapReference directory request.path content = .ok (some (.external file)) := by
    simp only [mapReference, found, external, located, Bool.false_eq_true, if_false]
  simp only [fetchMap, bare, referred]
  exact read

end Request

namespace FileSystem

variable {text content : String} {map : SourceMap}

/-- Text without a path refers to a map that carries `content` for a source without a path. -/
def Leads (files : FileSystem) (directory : Path) (roots : List Path) (text content : String) :
    Prop :=
  ∃ fetched, Request.fetch files directory roots ⟨0, none, some text, none⟩ = .ok fetched ∧
    ⟨none, some content⟩ ∈ fetched.children

/-- A text leads back to itself, at once or by way of others. -/
def Returns (files : FileSystem) (directory : Path) (roots : List Path) (text : String) : Prop :=
  Relation.TransGen (files.Leads directory roots) text text

/-- A text that leads back to itself leads to another one that does. -/
theorem Returns.onward (returns : files.Returns directory roots text) :
    ∃ next, files.Leads directory roots text next ∧ files.Returns directory roots next := by
  obtain ⟨next, leads, back⟩ := Relation.TransGen.head'_iff.1 returns
  exact ⟨next, leads, .tail' back leads⟩

def entryContents : Entry → List String
  | .directory => []
  | .file bytes =>
      match (Utf8.decode bytes).map String.ofList with
      | none => []
      | some text =>
          match SourceMap.parse text with
          | .error _ => []
          | .ok map => map.sourcesContent.filterMap id

def mapContents (files : FileSystem) : List String :=
  files.entries.flatMap fun entry => entryContents entry.2

theorem entry_of_read {path : Path} (read : files.readText? path = some text) :
    ∃ address bytes, address? path = some address ∧ (address, .file bytes) ∈ files.entries ∧
      (Utf8.decode bytes).map String.ofList = some text := by
  unfold readText? at read
  split at read
  next bytes found =>
    obtain ⟨address, located, there⟩ := Option.bind_eq_some_iff.1 found
    unfold entryAt? at there
    split at there
    · cases there
    · obtain ⟨before, after, whole, -⟩ := List.lookup_eq_some_iff.1 there
      refine ⟨address, bytes, located, ?_, read⟩
      rw [whole]
      exact List.mem_append_right before List.mem_cons_self
  next => cases read

theorem mem_map_contents {file : Path} (read : readMap files file = .ok (some map))
    (member : some content ∈ map.sourcesContent) : content ∈ files.mapContents := by
  unfold readMap at read
  split at read
  next => cases read
  next text shown =>
    split at read
    next own parsed =>
      cases read
      obtain ⟨address, bytes, -, inside, decoded⟩ := entry_of_read shown
      refine List.mem_flatMap.2 ⟨_, inside, ?_⟩
      simp only [entryContents, decoded, parsed]
      exact List.mem_filterMap.2 ⟨some content, member, rfl⟩
    next => cases read

/-- A text either holds what it leads to, or the map is one of finitely many. -/
theorem leads_cases (leads : files.Leads directory roots text content) :
    content.toList.length < text.toList.length ∨ content ∈ files.mapContents := by
  obtain ⟨fetched, answered, carried⟩ := leads
  obtain ⟨mapped, childless⟩ := Request.map_of_fetch answered
  obtain ⟨-, -, listed⟩ := Request.of_fetch answered
  cases known : fetched.map with
  | none =>
      rw [childless known] at carried
      cases carried
  | some map =>
      rw [listed map known] at carried
      obtain ⟨index, found⟩ := List.getElem?_of_mem carried
      have held := SourceMap.content_of_children found
      have member : some content ∈ map.sourcesContent :=
        List.mem_of_getElem? (Option.join_eq_some_iff.1 held.symm)
      rw [known] at mapped
      unfold Request.fetchContent Request.fetchMap at mapped
      dsimp only [Option.some_or] at mapped
      cases referred : mapReference directory none text with
      | error fault =>
          rw [referred] at mapped
          cases mapped
      | ok reference =>
          rw [referred] at mapped
          rcases reference with - | ⟨own⟩ | ⟨file⟩
          · cases mapped
          · cases mapped
            exact Or.inl (length_lt_of_inline referred member)
          · exact Or.inr (mem_map_contents mapped member)

open Classical in
/-- The contents of maps in files that a text leads to. -/
noncomputable def ahead (files : FileSystem) (directory : Path) (roots : List Path)
    (text : String) : Finset String :=
  files.mapContents.toFinset.filter fun content =>
    Relation.TransGen (files.Leads directory roots) text content

theorem mem_ahead {other : String} : other ∈ files.ahead directory roots text ↔
    other ∈ files.mapContents ∧ Relation.TransGen (files.Leads directory roots) text other := by
  classical
  rw [ahead, Finset.mem_filter, List.mem_toFinset]

/-- No content of a map in a file is longer. -/
def span (files : FileSystem) : Nat := (files.mapContents.map (·.toList.length)).sum

/-- What a text may still lead to, and then its own length. -/
noncomputable def weight (files : FileSystem) (directory : Path) (roots : List Path)
    (text : String) : Nat :=
  (files.ahead directory roots text).card * (files.span + 1) + text.toList.length

theorem ahead_subset (leads : files.Leads directory roots text content) :
    files.ahead directory roots content ⊆ files.ahead directory roots text := by
  intro other member
  obtain ⟨inside, onward⟩ := mem_ahead.1 member
  exact mem_ahead.2 ⟨inside, .head leads onward⟩

theorem weight_lt (leads : files.Leads directory roots text content)
    (straight : ¬files.Returns directory roots content) :
    files.weight directory roots content < files.weight directory roots text := by
  have fewer := Finset.card_le_card (ahead_subset leads)
  unfold weight
  rcases leads_cases leads with shorter | carried
  · have scaled := Nat.mul_le_mul_right (files.span + 1) fewer
    omega
  · -- The content itself lies ahead of the text, and no longer of the content.
    have apart : content ∉ files.ahead directory roots content :=
      fun member => straight (mem_ahead.1 member).2
    have before : content ∈ files.ahead directory roots text :=
      mem_ahead.2 ⟨carried, .single leads⟩
    have strictly :
        (files.ahead directory roots content).card < (files.ahead directory roots text).card :=
      Finset.card_lt_card ((Finset.ssubset_iff_of_subset (ahead_subset leads)).2
        ⟨content, before, apart⟩)
    have bound : content.toList.length ≤ files.span :=
      List.le_sum_of_mem (List.mem_map_of_mem carried)
    have scaled := Nat.mul_le_mul_right (files.span + 1) (Nat.succ_le_of_lt strictly)
    rw [Nat.succ_mul] at scaled
    omega

end FileSystem

namespace Request

variable {request : Request} {fetched : Fetched}

/-- A node that has nothing to read and no map of its own knows its content only. -/
structure Plain (files : FileSystem) (request : Request) : Prop where
  bare : request.map = none
  unreadable : ∀ path, request.path = some path → files.readText? path = none

theorem Plain.content (plain : request.Plain files) :
    request.fetchContent files = request.content := by
  have nothing : request.path.bind files.readText? = none := by
    cases named : request.path with
    | none => rfl
    | some path => exact plain.unreadable path named
  rw [fetchContent, nothing, Option.or_none]

theorem Plain.childless (plain : request.Plain files) (empty : request.content = none)
    (answered : request.fetch files directory roots = .ok fetched) : fetched.children = [] := by
  obtain ⟨mapped, childless⟩ := map_of_fetch answered
  have none : request.fetchMap files directory none = .ok none := by
    simp only [fetchMap, plain.bare]
  rw [plain.content, empty, none] at mapped
  exact childless (Except.ok.inj mapped).symm

theorem Plain.leads (plain : request.Plain files) (nameless : request.path = none)
    (answered : request.fetch files directory roots = .ok fetched) {content : String}
    (member : ⟨none, some content⟩ ∈ fetched.children) :
    ∃ text, request.content = some text ∧ files.Leads directory roots text content := by
  cases known : request.content with
  | none =>
      rw [plain.childless known answered] at member
      cases member
  | some text =>
      have same : ({ request with id := 0 } : Request) = ⟨0, none, some text, none⟩ := by
        rw [nameless, known, plain.bare]
      have again := fetch_with_id files directory roots request 0
      rw [same, answered] at again
      exact ⟨text, rfl, _, again, member⟩

end Request

end MapChain
