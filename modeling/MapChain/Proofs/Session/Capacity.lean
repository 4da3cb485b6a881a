import MapChain.Proofs.Mappings.Caching
import MapChain.Proofs.Session.Histories

/-!
What the memory of decoded mappings means to a session. Main statement: where the digests tell the
texts of a history apart, the memory is not seen in the answers and not in the graph, whatever its
capacity.
-/

set_option autoImplicit false

namespace MapChain

variable {files : FileSystem} {known : Set String} {session other : Session}

/-- The cache holds the lines of some of these texts. -/
def DecodeCache.Recalls (cache : DecodeCache) (known : Set String) : Prop :=
  ∃ held, cache.Mirrors held ∧ ∀ text ∈ held, text ∈ known

theorem DecodeCache.recalls_empty (capacity : Nat) (known : Set String) :
    (DecodeCache.empty capacity).Recalls known :=
  ⟨[], mirrors_empty capacity, by simp⟩

theorem DecodeCache.Recalls.decode {cache : DecodeCache} {text : String}
    (recalls : cache.Recalls known) (apart : Set.InjOn DecodeCache.key known)
    (member : text ∈ known) :
    (cache.decode text).2 = Mappings.decode text ∧ (cache.decode text).1.Recalls known := by
  obtain ⟨held, mirrors, inside⟩ := recalls
  obtain ⟨answer, still, -, -⟩ :=
    mirrors.decode fun text early same => apart (inside text early) member same
  refine ⟨answer, _, still, ?_⟩
  intro text later
  rcases List.mem_cons.1 (hold_subset cache.capacity held _ later) with same | early
  · rw [same]
    exact member
  · exact inside text early

namespace Session

/-- The text that is decoded to fold in a node: that of its map, if there is such a node and it
has a map. -/
def textOf (session : Session) (fetched : Fetched) : List String :=
  match session.graph.node? fetched.id with
  | none => []
  | some _ => (fetched.map.map (·.mappings)).toList

/-- The texts that are decoded to fold in the results of a wave, up to the first fault. -/
def textsOf (session : Session) : List (Except Fault Fetched) → List String
  | [] => []
  | .error _ :: _ => []
  | .ok fetched :: results =>
      session.textOf fetched ++
        match session.integrate fetched with
        | (_, .error _) => []
        | (session, .ok _) => textsOf session results

def texts (session : Session) (turns : List Turn) : List String :=
  session.watchAll
    (fun files _ session requests =>
      session.textsOf (requests.map (·.fetch files session.directory session.roots))) turns

/-- Two sessions differ in their memories at most, and these recall known texts only. -/
structure Alike (known : Set String) (session other : Session) : Prop where
  graph : other.graph = session.graph
  roots : other.roots = session.roots
  directory : other.directory = session.directory
  recalls : session.cache.Recalls known
  remembers : other.cache.Recalls known

theorem Alike.draw (alike : Alike known session other) (graph : Graph) :
    Alike known { session with graph := graph } { other with graph := graph } :=
  ⟨rfl, alike.roots, alike.directory, alike.recalls, alike.remembers⟩

theorem Alike.integrate (alike : Alike known session other)
    (apart : Set.InjOn DecodeCache.key known) {fetched : Fetched}
    (read : ∀ text ∈ session.textOf fetched, text ∈ known) :
    (other.integrate fetched).2 = (session.integrate fetched).2 ∧
      Alike known (session.integrate fetched).1 (other.integrate fetched).1 := by
  obtain ⟨graph, cache, roots, directory⟩ := session
  obtain ⟨own, memory, places, base⟩ := other
  obtain ⟨rfl, rfl, rfl, recalls, remembers⟩ := alike
  cases present : own.node? fetched.id with
  | none =>
      simp only [Session.integrate, present]
      exact ⟨trivial, rfl, rfl, rfl, recalls, remembers⟩
  | some node =>
      cases given : fetched.map with
      | none =>
          simp only [Session.integrate, present, given]
          exact ⟨trivial, rfl, rfl, rfl, recalls, remembers⟩
      | some map =>
          have member : map.mappings ∈ known := by
            apply read
            simp [textOf, present, given]
          obtain ⟨answer, still⟩ := recalls.decode apart member
          obtain ⟨again, kept⟩ := remembers.decode apart member
          simp only [Session.integrate, present, given, answer, again]
          cases Mappings.decode map.mappings with
          | error fault => exact ⟨rfl, rfl, rfl, rfl, still, kept⟩
          | ok lines => exact ⟨rfl, rfl, rfl, rfl, still, kept⟩

theorem Alike.integrate_all (alike : Alike known session other)
    (apart : Set.InjOn DecodeCache.key known) (results : List (Except Fault Fetched))
    (read : ∀ text ∈ session.textsOf results, text ∈ known) :
    (other.integrateAll results).2 = (session.integrateAll results).2 ∧
      Alike known (session.integrateAll results).1 (other.integrateAll results).1 := by
  induction results generalizing session other with
  | nil => exact ⟨rfl, alike⟩
  | cons result results induction =>
      cases result with
      | error fault => exact ⟨rfl, alike⟩
      | ok fetched =>
          rw [textsOf] at read
          have first (text : String) (member : text ∈ session.textOf fetched) : text ∈ known :=
            read text (List.mem_append_left _ member)
          have folded := alike.integrate apart first
          simp only [integrateAll]
          generalize session.integrate fetched = integrated at folded read ⊢
          generalize other.integrate fetched = same at folded ⊢
          obtain ⟨next, ended⟩ := integrated
          obtain ⟨later, again⟩ := same
          obtain ⟨rfl, still⟩ := folded
          cases again with
          | error fault => exact ⟨rfl, still⟩
          | ok pending =>
              have rest := induction still fun text member =>
                read text (List.mem_append_right _ member)
              dsimp only [collect]
              rw [rest.1]
              exact ⟨rfl, rest.2⟩

theorem Alike.begin_fetch (alike : Alike known session other) (id : NodeId) :
    (other.beginFetch id).2 = (session.beginFetch id).2 ∧
      Alike known (session.beginFetch id).1 (other.beginFetch id).1 := by
  unfold beginFetch
  rw [alike.graph]
  cases session.graph.node? id with
  | none => exact ⟨rfl, alike⟩
  | some node =>
      by_cases queued : node.state = .queued
      · simp only [if_pos queued]
        exact ⟨trivial, alike.draw _⟩
      · simp only [if_neg queued]
        exact ⟨trivial, alike⟩

theorem Alike.begin_wave (alike : Alike known session other) (wave : List NodeId) :
    (other.beginWave wave).2 = (session.beginWave wave).2 ∧
      Alike known (session.beginWave wave).1 (other.beginWave wave).1 := by
  induction wave generalizing session other with
  | nil => exact ⟨rfl, alike⟩
  | cons id wave induction =>
      obtain ⟨request, begun⟩ := alike.begin_fetch id
      obtain ⟨requests, last⟩ := induction begun
      refine ⟨?_, last⟩
      simp only [beginWave]
      rw [request, requests]

theorem Alike.run_waves (alike : Alike known session other)
    (apart : Set.InjOn DecodeCache.key known) (files : FileSystem) (waves : Nat)
    {wave : List NodeId}
    (read : ∀ text ∈ watchWaves (advanceConcurrent files) (fun session requests =>
      session.textsOf (requests.map (·.fetch files session.directory session.roots)))
      waves session wave, text ∈ known) :
    (runWaves (advanceConcurrent files) waves other wave).2 =
        (runWaves (advanceConcurrent files) waves session wave).2 ∧
      Alike known (runWaves (advanceConcurrent files) waves session wave).1
        (runWaves (advanceConcurrent files) waves other wave).1 := by
  induction waves generalizing session other wave with
  | zero => cases wave <;> exact ⟨rfl, alike⟩
  | succ waves induction =>
      cases wave with
      | nil => exact ⟨rfl, alike⟩
      | cons id wave =>
          have begun := alike.begin_wave (id :: wave)
          simp only [watchWaves, advance_concurrent_eq] at read
          simp only [runWaves, advance_concurrent_eq]
          generalize session.beginWave (id :: wave) = handed at begun read ⊢
          generalize other.beginWave (id :: wave) = same at begun ⊢
          obtain ⟨between, requests⟩ := handed
          obtain ⟨later, again⟩ := same
          obtain ⟨rfl, begun⟩ := begun
          dsimp only at begun read ⊢
          rw [begun.directory, begun.roots]
          have folded := begun.integrate_all apart
            (again.map (·.fetch files between.directory between.roots))
            fun text member => read text (List.mem_append_left _ member)
          generalize between.integrateAll
            (again.map (·.fetch files between.directory between.roots)) = ended at folded read ⊢
          generalize later.integrateAll
            (again.map (·.fetch files between.directory between.roots)) = likewise at folded ⊢
          obtain ⟨last, outcome⟩ := ended
          obtain ⟨final, result⟩ := likewise
          obtain ⟨rfl, still⟩ := folded
          cases result with
          | error fault => exact ⟨rfl, still⟩
          | ok next =>
              exact induction still fun text member => read text (List.mem_append_right _ member)

theorem Alike.enqueue (alike : Alike known session other) (root : NodeId) :
    (other.enqueue root).2 = (session.enqueue root).2 ∧
      Alike known (session.enqueue root).1 (other.enqueue root).1 := by
  unfold Session.enqueue
  rw [alike.graph]
  cases session.graph.node? root with
  | none => exact ⟨rfl, alike⟩
  | some node =>
      by_cases unvisited : node.state = .unvisited
      · simp only [if_pos unvisited]
        exact ⟨trivial, alike.draw _⟩
      · simp only [if_neg unvisited]
        exact ⟨trivial, alike⟩

theorem Alike.play (alike : Alike known session other)
    (apart : Set.InjOn DecodeCache.key known) {turn : Turn}
    (read : ∀ text ∈ session.texts [turn], text ∈ known) :
    (other.play turn).2 = (session.play turn).2 ∧
      Alike known (session.play turn).1 (other.play turn).1 := by
  obtain ⟨files, waves, call⟩ := turn
  have placed (file : Path) : other.inputPath file = session.inputPath file := by
    rw [inputPath, inputPath, alike.directory]
  cases call with
  | addRoot file =>
      simp only [Session.play, Session.call, addRoot, placed, alike.graph]
      exact ⟨trivial, alike.draw _⟩
  | addContent file content =>
      have named : file.map other.inputPath = file.map session.inputPath := by
        cases file with
        | none => rfl
        | some file => exact congrArg some (placed file)
      by_cases refused : (file.isNone && content.isEmpty) = true
      · simp only [Session.play, Session.call, addContent, if_pos refused]
        exact ⟨trivial, alike⟩
      · simp only [Session.play, Session.call, addContent, if_neg refused, named, alike.graph]
        exact ⟨trivial, alike.draw _⟩
  | load manner root =>
      obtain ⟨queued, begun⟩ := alike.enqueue root
      simp only [texts, watchAll, watch, List.append_nil, manner.advance_eq] at read
      rw [play_load, play_load, manner.advance_eq, queued]
      obtain ⟨outcome, still⟩ := begun.run_waves apart files waves read
      exact ⟨congrArg Answer.outcome outcome, still⟩

theorem Alike.play_all (alike : Alike known session other)
    (apart : Set.InjOn DecodeCache.key known) {turns : List Turn}
    (read : ∀ text ∈ session.texts turns, text ∈ known) :
    (other.playAll turns).2 = (session.playAll turns).2 ∧
      Alike known (session.playAll turns).1 (other.playAll turns).1 := by
  induction turns generalizing session other with
  | nil => exact ⟨rfl, alike⟩
  | cons turn turns induction =>
      have first (text : String) (member : text ∈ session.texts [turn]) : text ∈ known := by
        apply read
        simp only [texts, watchAll, List.append_nil] at member
        exact List.mem_append_left _ member
      obtain ⟨answer, played⟩ := alike.play apart first
      obtain ⟨answers, last⟩ := induction played fun text member =>
        read text (List.mem_append_right _ member)
      refine ⟨?_, last⟩
      simp only [playAll]
      rw [answer, answers]

theorem alike_start (directory : Path) (options : Options) (capacity : Nat) (known : Set String) :
    Alike known (start directory options)
      (start directory { options with cacheCapacity := capacity }) where
  graph := rfl
  roots := rfl
  directory := rfl
  recalls := DecodeCache.recalls_empty _ known
  remembers := DecodeCache.recalls_empty _ known

/-- Where digests tell the texts apart, each call of a cache gives what decoding its text gives,
and the hits are the calls whose texts are held; a text that cannot be decoded leaves a cache as it
is. Two sessions with memories of different capacities answer alike and build the same graph. -/
theorem memory_is_transparent :
    (∀ capacity texts, Set.InjOn DecodeCache.key {text | text ∈ texts} →
        ((DecodeCache.empty capacity).decodeAll texts).2 = texts.map Mappings.decode ∧
          ((DecodeCache.empty capacity).decodeAll texts).1.hits =
            DecodeCache.found capacity [] texts) ∧
      (∀ (cache : DecodeCache) text fault, (cache.decode text).2 = .error fault →
        (cache.decode text).1 = cache) ∧
      ∀ directory (options : Options) capacity turns,
        Set.InjOn DecodeCache.key {text | text ∈ (start directory options).texts turns} →
          ((start directory { options with cacheCapacity := capacity }).playAll turns).2 =
              ((start directory options).playAll turns).2 ∧
            ((start directory { options with cacheCapacity := capacity }).playAll turns).1.graph =
              ((start directory options).playAll turns).1.graph := by
  refine ⟨?_, fun _ _ _ => DecodeCache.decode_failed, ?_⟩
  · intro capacity texts apart
    obtain ⟨answers, -, hits⟩ := (DecodeCache.mirrors_empty capacity).decode_all apart
      (by simp) (fun text member => member)
    rw [hits]
    exact ⟨answers, Nat.zero_add _⟩
  · intro directory options capacity turns apart
    obtain ⟨answers, alike⟩ :=
      (alike_start directory options capacity _).play_all apart fun text member => member
    exact ⟨answers, alike.graph⟩

def copiesOptions : Options :=
  { sourceMaps :=
      [(⟨"a.js"⟩, ⟨3, none, [some "b.js"], [none], [], "A", none⟩),
        (⟨"b.js"⟩, ⟨3, none, [], [], [], "A", none⟩)] }

def copiesTurn : Turn := ⟨.empty, 2, .load .blocking 0⟩

theorem copies_do_not_show :
    ((DecodeCache.empty 1).decodeAll ["A", "A", "!", ";", "A"]).2 =
        ["A", "A", "!", ";", "A"].map Mappings.decode ∧
      ((DecodeCache.empty 1).decodeAll ["A", "A", "!", ";", "A"]).1.hits = 1 ∧
      ((DecodeCache.empty 1).decode "!").1 = .empty 1 ∧
      (start ⟨"/w"⟩ copiesOptions).texts [copiesTurn] = ["A", "A"] ∧
      ((start ⟨"/w"⟩ { copiesOptions with cacheCapacity := 0 }).playAll [copiesTurn]).1.graph =
        ((start ⟨"/w"⟩ copiesOptions).playAll [copiesTurn]).1.graph := by
  obtain ⟨called, failed, played⟩ := memory_is_transparent
  have digests : (["A", "!", ";"].map DecodeCache.key).Nodup := by decide +kernel
  have apart (texts : List String) (few : texts ⊆ ["A", "!", ";"]) :
      Set.InjOn DecodeCache.key {text | text ∈ texts} := fun first member second other same =>
    List.inj_on_of_nodup_map digests (few member) (few other) same
  have faulty : ((DecodeCache.empty 1).decode "!").2 =
      .error (.integer "!" (.foreignByte '!' 0)) := by decide +kernel
  have texts : (start ⟨"/w"⟩ copiesOptions).texts [copiesTurn] = ["A", "A"] := by decide +kernel
  obtain ⟨answers, hits⟩ := called 1 ["A", "A", "!", ";", "A"] (apart _ (by decide))
  have counted : DecodeCache.found 1 [] ["A", "A", "!", ";", "A"] = 1 := by decide +kernel
  have told := apart _ (by decide : ["A", "A"] ⊆ ["A", "!", ";"])
  rw [← texts] at told
  exact ⟨answers, hits.trans counted, failed _ _ _ faulty, texts, (played _ _ 0 _ told).2⟩

end Session

end MapChain
