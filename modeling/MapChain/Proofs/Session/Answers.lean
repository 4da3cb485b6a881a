import MapChain.Session.Load
import Mathlib.Data.List.Basic

/-!
The two ways to fetch the nodes of a wave. Main statements: a fetch that others run beside gives
what a fetch on its own gives, the order in which the answers come in is not seen in them, and a
wave that is fetched and folded node by node ends as one that is fetched as a whole.
-/

set_option autoImplicit false

namespace MapChain

variable {files : FileSystem} {directory : Path} {roots : List Path} {request : Request}
  {requests : List Request} {answer : Request → Except Fault Fetched}

namespace Request

theorem content_concurrent_eq (files : FileSystem) (request : Request) :
    request.contentConcurrent files = request.fetchContent files := by
  obtain ⟨id, path, content, map⟩ := request
  cases content with
  | some content => rfl
  | none => cases path <;> rfl

theorem first_existing_eq (files : FileSystem) (place : Nat) (candidates : List Path) :
    firstExisting? files place candidates =
      (candidates.findIdx? files.holds).map (place + ·) := by
  induction candidates generalizing place with
  | nil => rfl
  | cons candidate candidates induction =>
      rw [firstExisting?, FileSystem.exists_get_d, List.findIdx?_cons]
      split
      · rfl
      · rw [induction, Option.map_map]
        congr 1
        funext found
        change place + 1 + found = place + (found + 1)
        omega

theorem pick_first_existing (files : FileSystem) (candidates : List Path) :
    pickAt candidates (firstExisting? files 0 candidates) = pickSource files candidates := by
  rw [first_existing_eq]
  unfold pickAt pickSource
  rw [List.find?_eq_bind_findIdx?_getElem?]
  cases found : candidates.findIdx? files.holds with
  | none => exact List.head?_eq_getElem?.symm
  | some place =>
      obtain ⟨inside, -⟩ := List.findIdx?_eq_some_iff_getElem.1 found
      simp [inside]

theorem child_concurrent_eq (files : FileSystem) (directory : Path) (roots : List Path)
    (request : Request) (map : SourceMap) (index : Nat) :
    request.childConcurrent files directory roots map index =
      request.fetchChild files directory roots map index := by
  unfold childConcurrent fetchChild
  cases map.source? index with
  | none => rfl
  | some source =>
      by_cases empty : source.isEmpty = true
      · have bare : (some source).filter (!·.isEmpty) = none := by
          rw [Option.filter_some, empty]
          rfl
        simp only [bare, if_pos empty]
      · have filled : (some source).filter (!·.isEmpty) = some source := by
          rw [Option.filter_some, Bool.eq_false_iff.2 empty]
          rfl
        simp only [filled, if_neg empty, pick_first_existing]

theorem children_concurrent_eq (files : FileSystem) (directory : Path) (roots : List Path)
    (request : Request) (map : SourceMap) :
    request.childrenConcurrent files directory roots map =
      request.fetchChildren files directory roots map := by
  have grown (indices : List Nat) (children : List Child) :
      indices.foldl (fun children index =>
          children ++ [request.childConcurrent files directory roots map index]) children =
        children ++ indices.map (request.fetchChild files directory roots map) := by
    induction indices generalizing children with
    | nil => rw [List.map_nil, List.append_nil, List.foldl_nil]
    | cons index indices induction =>
        rw [List.foldl_cons, induction, child_concurrent_eq, List.map_cons, List.append_assoc,
          List.singleton_append]
  exact grown _ []

theorem fetch_concurrent_eq (files : FileSystem) (directory : Path) (roots : List Path)
    (request : Request) :
    request.fetchConcurrent files directory roots = request.fetch files directory roots := by
  simp only [fetchConcurrent, fetch, content_concurrent_eq]
  cases request.fetchMap files directory (request.fetchContent files) with
  | error fault => rfl
  | ok map =>
      cases map with
      | none => rfl
      | some map =>
          simp only [children_concurrent_eq]
          rfl

end Request

namespace Session

theorem length_answer_at (answers : List (Option (Except Fault Fetched))) (place : Nat) :
    (answerAt answer requests answers place).length = answers.length := by
  unfold answerAt
  split
  · exact List.length_set
  · rfl

theorem answer_at_get {answers : List (Option (Except Fault Fetched))}
    (room : answers.length = requests.length) (place index : Nat) :
    (answerAt answer requests answers place)[index]? =
      if place = index then requests[index]?.map (some ∘ answer) else answers[index]? := by
  unfold answerAt
  cases present : requests[place]? with
  | none =>
      have outside : answers[place]? = none := by
        rw [List.getElem?_eq_none_iff] at present ⊢
        omega
      by_cases same : place = index
      · rw [if_pos same, ← same, present, outside]
        rfl
      · rw [if_neg same]
  | some request =>
      have inside : place < answers.length := by
        rw [room]
        exact (List.getElem?_eq_some_iff.1 present).1
      by_cases same : place = index
      · rw [if_pos same, ← same, present, List.getElem?_set_self inside]
        rfl
      · rw [if_neg same, List.getElem?_set_ne same]

/-- Once an answer has come in it stays, since a second one would be the same. -/
theorem answers_get (order : List Nat) {answers : List (Option (Except Fault Fetched))}
    (room : answers.length = requests.length) (index : Nat) :
    (order.foldl (answerAt answer requests) answers)[index]? =
      if index ∈ order then requests[index]?.map (some ∘ answer) else answers[index]? := by
  induction order generalizing answers with
  | nil => simp
  | cons place order induction =>
      have still : (answerAt answer requests answers place).length = requests.length :=
        (length_answer_at answers place).trans room
      rw [List.foldl_cons, induction still, answer_at_get room]
      by_cases later : index ∈ order
      · rw [if_pos later, if_pos (List.mem_cons_of_mem place later)]
      · rw [if_neg later]
        by_cases same : place = index
        · rw [if_pos same, same, if_pos List.mem_cons_self]
        · have absent : index ∉ place :: order := by
            rw [List.mem_cons]
            rintro (here | there)
            · exact same here.symm
            · exact later there
          rw [if_neg same, if_neg absent]

/-- In whatever order the answers come in, they are those of the requests, one by one. -/
theorem answers_in_eq {order : List Nat} (complete : order.Perm (List.range requests.length)) :
    answersIn order answer requests = requests.map answer := by
  have filled : order.foldl (answerAt answer requests) (requests.map fun _ => none) =
      requests.map (some ∘ answer) := by
    apply List.ext_getElem?
    intro index
    rw [answers_get order (List.length_map _), List.getElem?_map, List.getElem?_map]
    by_cases inside : index < requests.length
    · rw [if_pos (complete.mem_iff.2 (List.mem_range.2 inside))]
    · have absent : index ∉ order := fun member =>
        inside (List.mem_range.1 (complete.mem_iff.1 member))
      have none := List.getElem?_eq_none (Nat.not_lt.1 inside)
      rw [if_neg absent, none]
      rfl
  rw [answersIn, filled, ← List.map_map, List.filterMap_map]
  exact List.filterMap_some

theorem advance_scheduled_eq (schedule : Schedule) (files : FileSystem) (session : Session)
    (requests : List Request) :
    advanceScheduled schedule files session requests =
      session.integrateAll (requests.map (·.fetch files session.directory session.roots)) := by
  have alike : (fun request : Request =>
        request.fetchConcurrent files session.directory session.roots) =
      fun request => request.fetch files session.directory session.roots := by
    funext request
    exact request.fetch_concurrent_eq files session.directory session.roots
  unfold advanceScheduled
  rw [alike, answers_in_eq (schedule.complete session requests)]

end Session

end MapChain
