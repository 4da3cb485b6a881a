import MapChain.Proofs.Session.Quieting
import MapChain.Proofs.Session.Returning
import MapChain.Proofs.Session.Stranding

/-!
Loads that come to an end. Main statements: a load ends, after finitely many waves, just when it
fails or asks for no content again and again; a content that leads back to itself is such a one.
-/

set_option autoImplicit false

namespace MapChain

variable {files : FileSystem} {directory : Path} {options : Options}

namespace Session

variable {session : Session} {wave : List NodeId}

theorem load_stays {waves : Nat} {manner : Manner} {root : NodeId} {outcome : LoadOutcome}
    (halted : (session.call files waves (.load manner root)).2 = .outcome outcome)
    (finished : ∀ wave, outcome ≠ .unfinished wave) :
    ∃ last, ∀ more, waves ≤ more → ∀ manner,
      session.call files more (.load manner root) = (last, .outcome outcome) := by
  simp only [call_load, load_blocking_eq] at halted ⊢
  generalize session.enqueue root = begun at halted ⊢
  obtain ⟨first, wave⟩ := begun
  refine ⟨(runWaves (advanceConcurrent files) waves first wave).1, ?_⟩
  intro more enough _
  obtain ⟨extra, rfl⟩ := Nat.exists_eq_add_of_le enough
  rw [run_waves_add]
  generalize runWaves (advanceConcurrent files) waves first wave = ended at halted ⊢
  obtain ⟨last, result⟩ := ended
  cases halted
  split
  next rest halted =>
    cases halted
    exact absurd rfl (finished rest)
  next => rfl

/-- A load ends if it fails or asks for no content again and again, be it without a path or at ever
new paths. Then it ends with enough waves, in whatever manner files are read and whatever has been
called before, and more waves change nothing. Otherwise no number of waves is enough. -/
theorem load_ends_iff
    (followed : Relation.ReflTransGen Follows (start directory options) session) (root : NodeId) :
    (∃ bound last outcome, (∀ wave, outcome ≠ .unfinished wave) ∧
        ∀ waves, bound ≤ waves → ∀ manner,
          session.call files waves (.load manner root) = (last, .outcome outcome)) ↔
      (∃ waves manner fault,
          (session.call files waves (.load manner root)).2 = .outcome (.failed fault)) ∨
        ¬(session.enqueue root).1.Recurs files (session.enqueue root).2 ∧
          ¬(session.enqueue root).1.Wanders files (session.enqueue root).2 := by
  have indexed := indexed_enqueue (linked_of_follows followed).indexed root
  constructor
  · rintro ⟨bound, last, outcome, finished, stays⟩
    have halted := stays bound (Nat.le_refl bound) .blocking
    rw [call_load, load_blocking_eq] at halted
    obtain ⟨-, same⟩ := Prod.mk.inj halted
    cases outcome with
    | failed fault =>
        refine Or.inl ⟨bound, .blocking, fault, ?_⟩
        rw [stays bound (Nat.le_refl bound)]
    | unfinished rest => exact absurd rfl (finished rest)
    | complete =>
        have complete := Answer.outcome.inj same
        have ends : (session.enqueue root).1.Ends files (session.enqueue root).2 := by
          apply ends_of_finished bound
          simp [complete]
        exact Or.inr ⟨fun recurs => recurs.not_complete indexed bound complete,
          ends.not_wanders indexed⟩
  · rintro (⟨waves, manner, fault, failed⟩ | ⟨straight, near⟩)
    · obtain ⟨last, stays⟩ := load_stays failed (by simp)
      exact ⟨waves, last, .failed fault, by simp, stays⟩
    · obtain ⟨paths, tame⟩ := exists_tame straight near
      obtain ⟨bound, ⟨last, outcome⟩, finished, stays⟩ := tame.ends indexed
      refine ⟨bound, last, outcome, finished, ?_⟩
      intro waves enough manner
      rw [call_load, load_blocking_eq, stays waves enough]

/-- The source of the bundle refers to a map beside it, in the words that the bundle uses for its
own. -/
def bundledMap : SourceMap :=
  ⟨3, none, [some "../src/app.js"], [some "b\n//# sourceMappingURL=app.js.map"], [], "", none⟩

def bundledFiles : FileSystem :=
  ⟨[(["w", "dist", "app.js"], .file (Utf8.encode "a\n//# sourceMappingURL=app.js.map".toList)),
    (["w", "dist", "app.js.map"], .file (Utf8.encode bundledMap.jsonText.toList))]⟩

def bundled : Session := ((start ⟨"/w"⟩ {}).call .empty 0 (.addRoot ⟨"dist/app.js"⟩)).1

/-- From another place, the same reference leads elsewhere. -/
theorem bundled_load_ends :
    Relation.ReflTransGen Follows (start ⟨"/w"⟩ {}) bundled ∧
      (bundled.call bundledFiles 2 (.load .blocking 0)).2 = .outcome .complete ∧
      ¬(bundled.enqueue 0).1.Recurs bundledFiles (bundled.enqueue 0).2 ∧
        ¬(bundled.enqueue 0).1.Wanders bundledFiles (bundled.enqueue 0).2 := by
  have followed : Relation.ReflTransGen Follows (start ⟨"/w"⟩ {}) bundled :=
    .single ⟨.empty, 0, .addRoot ⟨"dist/app.js"⟩, by rw [bundled]⟩
  have complete : (bundled.call bundledFiles 2 (.load .blocking 0)).2 = .outcome .complete := by
    decide +kernel
  obtain ⟨last, stays⟩ := load_stays complete (by simp)
  refine ⟨followed, complete, ?_⟩
  rcases (load_ends_iff followed 0).1 ⟨2, last, .complete, by simp, stays⟩ with
    ⟨waves, manner, fault, failed⟩ | tame
  · obtain ⟨other, fails⟩ := load_stays failed (by simp)
    have same := stays (waves + 2) (Nat.le_add_left 2 waves) .blocking
    rw [fails (waves + 2) (Nat.le_add_right waves 2) .blocking] at same
    cases same
  · exact tame

def carrying (content : String) : SourceMap := ⟨3, none, [none], [some content], [], "", none⟩

def mapFile (text : String) : FileSystem :=
  ⟨[(["w", "m.map"], .file (Utf8.encode text.toList))]⟩

def reference : String := "//# sourceMappingURL=m.map"

def referring : Session := ((start ⟨"/w"⟩ {}).call .empty 0 (.addContent none reference)).1

theorem read_map_file {text : String} {map : SourceMap}
    (parsed : SourceMap.parse text = .ok map) :
    readMap (mapFile text) ⟨"/w/m.map"⟩ = .ok (some map) := by
  have located : FileSystem.address? ⟨"/w/m.map"⟩ = some ["w", "m.map"] := by decide +kernel
  have found : (mapFile text).find? ⟨"/w/m.map"⟩ = some (.file (Utf8.encode text.toList)) := by
    rw [FileSystem.find?, located]
    rfl
  simp only [readMap, FileSystem.readText?, found, Utf8.decode_encode, Option.map_some,
    String.ofList_toList, parsed]

def circular : FileSystem := mapFile (carrying reference).jsonText

theorem fetch_reference (id : NodeId) (roots : List Path) :
    Request.fetch circular ⟨"/w"⟩ roots ⟨id, none, some reference, none⟩ =
      .ok ⟨id, some reference, some (carrying reference), [⟨none, some reference⟩]⟩ := by
  have parsed : SourceMap.parse (carrying reference).jsonText = .ok (carrying reference) := by
    decide +kernel
  have url : Reference.findUrl? reference = some "m.map" := by decide +kernel
  have external : Reference.isDataUrl "m.map" = false := by decide +kernel
  have place : Path.resolve ⟨"/w"⟩ (originDirectory ⟨"/w"⟩ none)
      ⟨Path.withoutFileProtocol (Reference.decodeUrl "m.map")⟩ = ⟨"/w/m.map"⟩ := by
    decide +kernel
  have mapped : Request.fetchMap circular ⟨"/w"⟩ ⟨id, none, some reference, none⟩
      (some reference) = .ok (some (carrying reference)) :=
    Request.fetch_map_of_external rfl url external place (read_map_file parsed)
  exact Request.fetch_of_map mapped

/-- A content that refers to the map waits to be loaded. -/
def Circles (session : Session) (id : NodeId) : Prop :=
  session.directory = ⟨"/w"⟩ ∧
    session.graph.node? id = some ⟨none, some reference, none, none, [], .queued⟩

theorem decode_nothing (cache : DecodeCache) (fault : Mappings.Fault) :
    (cache.decode "").2 ≠ .error fault := by
  have read : Mappings.decode "" = .ok [[]] := Mappings.decode_encode_nil
  unfold DecodeCache.decode
  cases cache.find? "" with
  | some lines => simp
  | none => simp [read]

theorem attach_nameless (graph : Graph) (text : String) :
    attachChildren graph [⟨none, some text⟩] =
      (graph.push { Node.fresh none (some text) with state := .queued }, [graph.size],
        [graph.size]) := by
  simp only [attachChildren, attach_child_nameless, if_true]

theorem integrate_reference {id : NodeId} {node : Node}
    (present : session.graph.node? id = some node) :
    ∃ later next, later.directory = session.directory ∧
      later.graph.node? next = some ⟨none, some reference, none, none, [], .queued⟩ ∧
      session.integrate ⟨id, some reference, some (carrying reference),
        [⟨none, some reference⟩]⟩ = (later, .ok [next]) := by
  generalize whole : (⟨id, some reference, some (carrying reference),
    [⟨none, some reference⟩]⟩ : Fetched) = fetched
  have there : session.graph.node? fetched.id = some node := by
    rw [← whole]
    exact present
  rcases integrate_cases session there with
    ⟨bare, -⟩ | ⟨map, fault, given, failed, -⟩ | ⟨map, lines, given, -, same⟩
  · rw [← whole] at bare
    cases bare
  · rw [← whole] at given
    cases given
    exact absurd failed (decode_nothing session.cache fault)
  · have attached := attach_nameless (session.graph.land fetched) reference
    have children : fetched.children = [⟨none, some reference⟩] := by rw [← whole]
    rw [children, attached] at same
    refine ⟨_, _, ?_, ?_, same⟩
    · rfl
    · have landed : fetched.id ≠ (session.graph.land fetched).size := by
        have kept : (session.graph.land fetched).size = session.graph.size := Array.size_modify
        rw [kept]
        exact Nat.ne_of_lt (Graph.lt_size_of_node there)
      dsimp only
      rw [Graph.equip, Graph.node_modify_of_ne _ _ (Ne.symm landed), Graph.node_push_size]
      rfl

theorem Circles.advance {id : NodeId} (circles : session.Circles id) :
    ∃ later next, later.Circles next ∧
      advanceConcurrent circular (session.beginWave [id]).1
        (session.beginWave [id]).2 = (later, .ok [next]) := by
  obtain ⟨unmoved, present⟩ := circles
  rcases begin_fetch_cases session id with ⟨-, idle⟩ | ⟨node, there, -, handed⟩
  · exact absurd rfl (idle _ present)
  · rw [present] at there
    cases there
    have begun : session.beginWave [id] = ((session.beginFetch id).1,
        [⟨id, none, some reference, none⟩]) := by
      simp only [beginWave, handed, Option.toList_some, List.append_nil]
    have moved : (session.beginFetch id).1.graph.node? id =
        some ⟨none, none, none, none, [], .fetching⟩ := by
      rw [handed, Graph.node_modify_self, present]
      rfl
    have still := (directory_begin_fetch session id).trans unmoved
    obtain ⟨later, next, kept, found, folded⟩ := integrate_reference moved
    refine ⟨later, next, ⟨kept.trans still, found⟩, ?_⟩
    rw [begun, advance_concurrent_eq]
    simp only [List.map_cons, List.map_nil, still, fetch_reference, integrateAll, folded, collect,
      Except.map, List.append_nil]

theorem Circles.unfinished {id : NodeId} (circles : session.Circles id) (waves : Nat) :
    ∃ rest, (runWaves (advanceConcurrent circular) waves session [id]).2 =
      .unfinished rest := by
  induction waves generalizing session id with
  | zero => exact ⟨[id], rfl⟩
  | succ waves induction =>
      obtain ⟨later, next, again, advanced⟩ := circles.advance
      simp only [runWaves, advanced]
      exact induction again

/-- A content that comes back to itself is loaded anew again and again: no number of waves is
enough. -/
theorem referring_load_never_ends :
    Relation.ReflTransGen Follows (start ⟨"/w"⟩ {}) referring ∧
      ∀ waves manner, ∃ rest,
        (referring.call circular waves (.load manner 0)).2 =
          .outcome (.unfinished rest) := by
  have followed : Relation.ReflTransGen Follows (start ⟨"/w"⟩ {}) referring :=
    .single ⟨.empty, 0, .addContent none reference, by rw [referring]⟩
  have present : referring.graph.node? 0 =
      some ⟨none, some reference, none, none, [], .unvisited⟩ := rfl
  refine ⟨followed, ?_⟩
  intro waves manner
  rcases enqueue_cases referring 0 with ⟨-, visited⟩ | ⟨node, -, -, queued⟩
  · exact absurd rfl (visited _ present)
  · have circles : (referring.enqueue 0).1.Circles 0 := by
      refine ⟨(directory_enqueue referring 0).trans rfl, ?_⟩
      rw [queued, Graph.node_modify_self, present]
      rfl
    obtain ⟨rest, unfinished⟩ := circles.unfinished waves
    refine ⟨rest, ?_⟩
    rw [queued] at unfinished
    rw [call_load, load_blocking_eq, queued, unfinished]

end Session

end MapChain
