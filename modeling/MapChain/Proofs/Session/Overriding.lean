import MapChain.Proofs.Session.Finality
import MapChain.Proofs.Session.Leading
import MapChain.Proofs.Session.Seeding

/-!
What the options of a session give for a path, over all that is asked of the session. Main
statement: it comes before everything that is read or carried by maps, and to find the map of a
path that a map is given for, nothing is looked at.
-/

set_option autoImplicit false

namespace MapChain

inductive Lookup where
  /-- A content, for a reference at its end. -/
  | content (content : String)
  | dataUrl (url : String)
  | mapFile (file : Path)
  deriving DecidableEq, Repr

/-- Finds a map as `Request.fetchMap` does, and notes down what it looks at. -/
def Request.seekMap (files : FileSystem) (directory : Path) (request : Request)
    (content : Option String) : List Lookup × Except Fault (Option SourceMap) :=
  match request.map, content with
  | some map, _ => ([], .ok (some map))
  | none, none => ([], .ok none)
  | none, some content =>
      match Reference.findUrl? content with
      | none => ([.content content], .ok none)
      | some url =>
          if Reference.isDataUrl url then
            ([.content content, .dataUrl url],
              match SourceMap.ofUrl url with
              | .ok map => .ok (some map)
              | .error fault =>
                  .error (.invalidSourceMap ("data URI in " ++ originLabel request.path) fault))
          else
            let file := Path.resolve directory (originDirectory directory request.path)
              ⟨Path.withoutFileProtocol (Reference.decodeUrl url)⟩
            ([.content content, .mapFile file], readMap files file)

/-- The node that a call gives content to, if there is one. A loaded node takes none. -/
def Session.supplies (session : Session) (turn : Turn) : List NodeId :=
  match turn.call with
  | .addContent file content =>
      match session.addContent file content with
      | .ok (_, id) => if (session.graph.node? id).any (·.isLoaded) then [] else [id]
      | .error _ => []
  | _ => []

def Session.supplied (session : Session) : List Turn → List NodeId
  | [] => []
  | turn :: turns => session.supplies turn ++ (session.play turn).1.supplied turns

def Session.lookups (files : FileSystem) (_ : Manner) (session : Session)
    (requests : List Request) : List (NodeId × Lookup) :=
  requests.flatMap fun request =>
    (request.seekMap files session.directory (request.fetchContent files)).1.map (request.id, ·)

variable {given : Override} {files : FileSystem} {directory : Path} {roots : List Path}
  {options : Options} {graph next : Graph} {session : Session} {request : Request}
  {requests : List Request} {wave : List NodeId} {fetched : Fetched} {id : NodeId}

namespace Request

/-- Noting down what is looked at changes nothing. -/
theorem seek_map_eq (files : FileSystem) (directory : Path) (request : Request)
    (content : Option String) :
    (request.seekMap files directory content).2 = request.fetchMap files directory content := by
  cases bare : request.map with
  | some map => simp only [seekMap, fetchMap, bare]
  | none =>
      cases content with
      | none => simp only [seekMap, fetchMap, bare]
      | some content =>
          simp only [seekMap, fetchMap, mapReference, bare]
          cases Reference.findUrl? content with
          | none => rfl
          | some url =>
              cases inline : Reference.isDataUrl url with
              | false => simp only [inline, Bool.false_eq_true, if_false, bind, Except.bind]
              | true =>
                  simp only [inline, if_true, bind, Except.bind]
                  cases SourceMap.ofUrl url with
                  | error fault => rfl
                  | ok map => rfl

theorem seek_map_of_map {map : SourceMap} (mapped : request.map = some map)
    (content : Option String) : (request.seekMap files directory content).1 = [] := by
  simp only [seekMap, mapped]

end Request

theorem Override.Kept.fetch (kept : given.Kept request.content request.map)
    (answered : request.fetch files directory roots = .ok fetched) :
    given.Kept fetched.content fetched.map where
  content := by
    intro text said
    obtain ⟨-, content, -⟩ := Request.of_fetch answered
    rw [content, Request.fetchContent, kept.content text said, Option.some_or]
  map := by
    intro own said
    obtain ⟨mapped, -⟩ := Request.map_of_fetch answered
    simp only [Request.fetchMap, kept.map own said, Except.ok.injEq] at mapped
    exact mapped.symm

namespace Graph

theorem Heeds.hand_out (heeds : graph.Heeds given id) (hands : HandsOut wave requests graph next) :
    next.Heeds given id ∧
      ∀ request ∈ requests, request.id = id → given.Kept request.content request.map := by
  obtain ⟨node, present, kept⟩ := heeds
  constructor
  · rcases hands.waits id node present with there | ⟨-, -, handed⟩
    · exact ⟨node, there, kept⟩
    · refine ⟨node.handOut, handed, kept.path, ?_, ?_⟩
      · intro pending
        cases pending
      · intro loaded
        cases loaded
  · intro request member target
    obtain ⟨-, old, there, queued, asked⟩ := hands.asked request member
    rw [target, present] at there
    cases there
    rw [asked]
    exact kept.waits (by simp [Node.isPending, queued])

theorem Heeds.enqueue (heeds : graph.Heeds given id) {root : NodeId} {node : Node}
    (present : graph.node? root = some node) (unvisited : node.state = .unvisited) :
    (graph.modify root fun node => { node with state := .queued }).Heeds given id := by
  apply heeds.modify
  intro same old there kept
  rw [same, there] at present
  cases present
  have awaits : node.Awaits (fun _ _ => True) { node with state := .queued } :=
    Node.awaits_queue unvisited
  exact kept.await awaits

/-- A caller takes the place of what is given, but not once it is loaded. -/
theorem Heeds.supply (heeds : graph.Heeds given id) (indexed : graph.Indexed) (path : Option Path)
    (content : String)
    (spared : given.content ≠ none → (graph.attach path none).2 = id →
      (graph.node? id).any (·.isLoaded) = true) :
    (graph.supply path content).Heeds given id := by
  apply (heeds.attach indexed path none).modify
  intro same node there kept
  by_cases loaded : node.isLoaded = true
  · rw [Node.supply, if_pos loaded]
    exact kept
  · rw [Node.supply, if_neg loaded]
    refine ⟨kept.path, ?_, fun landed => absurd (decide_eq_true landed) loaded⟩
    intro pending
    refine ⟨?_, (kept.waits pending).map⟩
    intro text said
    have before := spared (by simp [said]) same
    obtain ⟨old, present, landed⟩ := (Option.any_eq_true _ _).1 before
    obtain ⟨new, found, persists⟩ := (grows_attach indexed path none).persists id old present
    rw [there] at found
    cases found
    rw [persists.loaded (of_decide_eq_true landed)] at loaded
    exact absurd landed loaded

end Graph

namespace Session

theorem not_mem_lookups {manner : Manner} (mapped : given.map ≠ none)
    (kept : ∀ request ∈ requests, request.id = id → given.Kept request.content request.map)
    (lookup : Lookup) : (id, lookup) ∉ lookups files manner session requests := by
  obtain ⟨map, said⟩ := Option.ne_none_iff_exists'.1 mapped
  intro member
  obtain ⟨request, asked, inside⟩ := List.mem_flatMap.1 member
  obtain ⟨looked, noted, same⟩ := List.mem_map.1 inside
  have target : request.id = id := congrArg Prod.fst same
  rw [Request.seek_map_of_map ((kept request asked target).map map said)] at noted
  cases noted

/-- Folding in an answer leaves a node with what is given for its path, unless the map that comes
with the answer cannot be decoded. -/
theorem heeds_integrate {pending : List NodeId} (indexed : session.graph.Indexed)
    (heeds : session.graph.Heeds given id)
    (kept : fetched.id = id → given.Kept fetched.content fetched.map)
    (folded : (session.integrate fetched).2 = .ok pending) :
    (session.integrate fetched).1.graph.Heeds given id := by
  obtain ⟨node, present, before⟩ := heeds
  by_cases same : fetched.id = id
  · have carried := (kept same).name
    rw [← same] at present ⊢
    rcases integrate_cases session present with
      ⟨bare, ended⟩ | ⟨map, fault, -, -, ended⟩ | ⟨map, lines, mapped, -, ended⟩
    · rw [ended]
      refine ⟨{ node with content := fetched.content, state := .loaded }, ?_, before.path, ?_, ?_⟩
      · rw [Graph.land, Graph.node_modify_self, present]
        rfl
      · intro pending
        cases pending
      · intro _
        refine ⟨carried.content, ?_⟩
        intro own said
        have shown := carried.map own said
        rw [bare] at shown
        cases shown
    · rw [ended] at folded
      cases folded
    · rw [ended]
      refine ⟨_, node_equip indexed present _ _ lines _, before.path, ?_, ?_⟩
      · intro pending
        cases pending
      · intro _
        rw [mapped] at carried
        rw [before.path]
        exact carried
  · have folds : Graph.Folds (fun _ _ => True) [fetched.id] session.graph
        (session.integrate fetched).1.graph := folds_integrate indexed fun _ _ _ _ => trivial
    obtain ⟨new, there, awaits | ⟨landed, -, -⟩⟩ := folds.waits id node present
    · exact ⟨new, there, before.await awaits⟩
    · exact absurd (List.mem_singleton.1 landed).symm same

theorem heeds_integrate_all {pending : List NodeId} (indexed : session.graph.Indexed)
    (heeds : session.graph.Heeds given id)
    (kept : ∀ request ∈ requests, request.id = id → given.Kept request.content request.map)
    (completed : (session.integrateAll (requests.map (·.fetch files directory roots))).2 =
      .ok pending) :
    (session.integrateAll (requests.map (·.fetch files directory roots))).1.graph.Heeds
      given id := by
  induction requests generalizing session pending with
  | nil => exact heeds
  | cons request requests induction =>
      rw [List.forall_mem_cons] at kept
      simp only [List.map_cons] at completed ⊢
      cases answered : request.fetch files directory roots with
      | error fault =>
          rw [answered] at completed
          cases completed
      | ok fetched =>
          obtain ⟨target, -, -⟩ := Request.of_fetch answered
          have still := indexed_integrate indexed fetched
          have folded (first : List NodeId) (ended : (session.integrate fetched).2 = .ok first) :=
            heeds_integrate indexed heeds
              (fun same => (kept.1 (target.symm.trans same)).fetch answered) ended
          rw [answered] at completed
          simp only [integrateAll] at completed ⊢
          generalize session.integrate fetched = integrated at completed still folded ⊢
          obtain ⟨between, fault | first⟩ := integrated
          · cases completed
          · obtain ⟨last, ended, -⟩ := of_collect completed
            exact induction still (folded first rfl) kept.2 ended

theorem heeds_run_waves (indexed : session.graph.Indexed) (heeds : session.graph.Heeds given id)
    (manner : Manner) (files : FileSystem) (waves : Nat) {wave : List NodeId}
    (completed : (runWaves (manner.advance files) waves session wave).2 = .complete) :
    (runWaves (manner.advance files) waves session wave).1.graph.Heeds given id ∧
      (given.map ≠ none → ∀ lookup, (id, lookup) ∉
        watchWaves (manner.advance files) (lookups files manner) waves session wave) := by
  induction waves generalizing session wave with
  | zero => cases wave <;> exact ⟨heeds, fun _ _ => List.not_mem_nil⟩
  | succ waves induction =>
      cases wave with
      | nil => exact ⟨heeds, fun _ _ => List.not_mem_nil⟩
      | cons first wave =>
          have begun := indexed_begin_wave indexed (first :: wave)
          obtain ⟨still, asked⟩ := heeds.hand_out (hands_out_begin_wave session (first :: wave))
          simp only [runWaves, watchWaves] at completed ⊢
          generalize session.beginWave (first :: wave) = started at begun still asked completed ⊢
          obtain ⟨between, requests⟩ := started
          dsimp only at begun still asked completed ⊢
          have unseen (mapped : given.map ≠ none) (lookup : Lookup) :
              (id, lookup) ∉ lookups files manner between requests :=
            not_mem_lookups mapped asked lookup
          have folded (next : List NodeId)
              (ended : (manner.advance files between requests).2 = .ok next) :
              (manner.advance files between requests).1.graph.Heeds given id := by
            rw [manner.advance_eq, advance_concurrent_eq] at ended ⊢
            exact heeds_integrate_all begun still asked ended
          have onward : (manner.advance files between requests).1.graph.Indexed := by
            rw [manner.advance_eq, advance_concurrent_eq]
            exact indexed_integrate_all begun _
          generalize manner.advance files between requests = ended at folded onward completed ⊢
          obtain ⟨last, fault | next⟩ := ended
          · cases completed
          · obtain ⟨held, later⟩ := induction onward (folded next rfl) completed
            refine ⟨held, ?_⟩
            intro mapped lookup member
            rcases List.mem_append.1 member with here | there
            · exact unseen mapped lookup here
            · exact later mapped lookup there

theorem heeds_enqueue (heeds : session.graph.Heeds given id) (root : NodeId) :
    (session.enqueue root).1.graph.Heeds given id := by
  rcases enqueue_cases session root with ⟨idle, -⟩ | ⟨node, present, unvisited, queued⟩
  · rw [idle]
    exact heeds
  · rw [queued]
    exact heeds.enqueue present unvisited

theorem heeds_play (indexed : session.graph.Indexed) (heeds : session.graph.Heeds given id)
    (turn : Turn) (spared : given.content ≠ none → id ∉ session.supplies turn)
    (completed : ∀ outcome, (session.play turn).2 = .outcome outcome → outcome = .complete) :
    (session.play turn).1.graph.Indexed ∧ (session.play turn).1.graph.Heeds given id ∧
      (given.map ≠ none → ∀ lookup, (id, lookup) ∉ session.watch lookups turn) := by
  obtain ⟨files, waves, call⟩ := turn
  cases call with
  | addRoot file =>
      refine ⟨Graph.indexed_attach indexed (some (session.inputPath file)) none,
        heeds.attach indexed (some (session.inputPath file)) none, ?_⟩
      exact fun _ _ => List.not_mem_nil
  | addContent file content =>
      refine (and_assoc.1 ⟨?_, fun _ _ => List.not_mem_nil⟩)
      rcases add_content_cases session file content with refused | taken
      · simp only [play, Session.call, refused]
        exact ⟨indexed, heeds⟩
      · simp only [play, Session.call, taken]
        refine ⟨Graph.indexed_supply indexed _ content, heeds.supply indexed _ content ?_⟩
        intro said same
        have apart := spared said
        simp only [supplies, taken, same] at apart
        by_contra unloaded
        rw [if_neg unloaded] at apart
        exact apart (List.mem_singleton.2 rfl)
  | load manner root =>
      have queued := indexed_enqueue indexed root
      rw [play_load] at completed ⊢
      obtain ⟨held, unseen⟩ := heeds_run_waves queued (heeds_enqueue heeds root) manner files waves
        (completed _ rfl)
      refine ⟨?_, held, unseen⟩
      rw [manner.advance_eq]
      exact run_waves_keeps (fun session => session.graph.Indexed)
        (fun _ id indexed => indexed_begin_fetch indexed id)
        (fun _ fetched indexed => indexed_integrate indexed fetched) files waves _ queued

theorem heeds_play_all (indexed : session.graph.Indexed) (heeds : session.graph.Heeds given id)
    (turns : List Turn) (spared : given.content ≠ none → id ∉ session.supplied turns)
    (completed : ∀ outcome, .outcome outcome ∈ (session.playAll turns).2 → outcome = .complete) :
    (session.playAll turns).1.graph.Indexed ∧ (session.playAll turns).1.graph.Heeds given id ∧
      (given.map ≠ none → ∀ lookup, (id, lookup) ∉ session.watchAll lookups turns) := by
  induction turns generalizing session with
  | nil => exact ⟨indexed, heeds, fun _ _ => List.not_mem_nil⟩
  | cons turn turns induction =>
      simp only [supplied, List.mem_append, not_or] at spared
      simp only [playAll, List.mem_cons] at completed
      obtain ⟨still, kept, unseen⟩ := heeds_play indexed heeds turn (fun said => (spared said).1)
        fun outcome same => completed outcome (Or.inl same.symm)
      obtain ⟨sorted, held, later⟩ := induction still kept (fun said => (spared said).2)
        fun outcome member => completed outcome (Or.inr member)
      refine ⟨sorted, held, ?_⟩
      intro mapped lookup member
      rcases List.mem_append.1 member with here | there
      · exact unseen mapped lookup here
      · exact later mapped lookup there

theorem heeds_last (absolute : directory.isAbsolute = true) {other : NodeId}
    (heeds : (start directory options).graph.Heeds given other) {turns : List Turn}
    (completed : ∀ outcome, .outcome outcome ∈ ((start directory options).playAll turns).2 →
      outcome = .complete) {node : Node}
    (present : ((start directory options).playAll turns).1.graph.node? id = some node)
    (named : node.path = some given.path)
    (spared : given.content ≠ none → id ∉ (start directory options).supplied turns) :
    node.Heeds given ∧ (given.map ≠ none →
      ∀ lookup, (id, lookup) ∉ (start directory options).watchAll lookups turns) := by
  have seeded := seeded_start directory options
  have orderly := orderly_of_follows absolute (follows_of_play_all (start directory options) turns)
  obtain ⟨old, before, kept⟩ := heeds
  obtain ⟨matured, -⟩ := spent_play_all seeded.indexed seeded.spent turns
  obtain ⟨new, there, matures⟩ := matured other old before
  have same : other = id := orderly.indexed.apart
    ⟨new, there, matures.path.trans kept.path⟩ ⟨node, present, named⟩
  rw [same] at before
  obtain ⟨-, ⟨last, found, held⟩, unseen⟩ :=
    heeds_play_all seeded.indexed ⟨old, before, kept⟩ turns spared completed
  rw [present] at found
  cases found
  exact ⟨held, unseen⟩

/-- Overrides come first. Where no path is given two contents or two maps, and all loads complete:
a loaded node has the content that is given for its path, unless a caller has given it another one
before it was loaded, and it has the map that is given for its path, with the path for its file
name. To find this map nothing is ever looked at: no content is searched for a reference, and no
data URL and no map file is read. -/
theorem overrides_come_first (absolute : directory.isAbsolute = true)
    (distinct : options.Distinct directory) (turns : List Turn)
    (completed : ∀ outcome, .outcome outcome ∈ ((start directory options).playAll turns).2 →
      outcome = .complete) :
    let last := ((start directory options).playAll turns).1
    (∀ key text, (key, text) ∈ options.content →
        ∀ id node, last.graph.node? id = some node →
          node.path = some (Path.absolute directory key) → node.state = .loaded →
            id ∉ (start directory options).supplied turns → node.content = some text) ∧
      ∀ key map, (key, map) ∈ options.sourceMaps →
        ∀ id node, last.graph.node? id = some node →
          node.path = some (Path.absolute directory key) → node.state = .loaded →
            node.map = some { map with file := some (Path.absolute directory key).slash } ∧
              ∀ lookup, (id, lookup) ∉ (start directory options).watchAll lookups turns := by
  intro last
  constructor
  · intro key text member id node present named loaded spared
    obtain ⟨other, heeds⟩ := start_heeds_content absolute distinct member
    obtain ⟨held, -⟩ := heeds_last absolute heeds completed present named fun _ => spared
    exact (held.landed loaded).content text rfl
  · intro key map member id node present named loaded
    obtain ⟨other, heeds⟩ := start_heeds_map absolute distinct member
    obtain ⟨held, unseen⟩ := heeds_last absolute heeds completed present named
      fun given => absurd rfl given
    exact ⟨(held.landed loaded).map _ rfl, unseen (by simp)⟩

def givenOptions : Options :=
  { content := [(⟨"b.js"⟩, "own")]
    sourceMaps := [(⟨"b.js"⟩, ⟨3, none, [], [], ["b"], "", none⟩),
      (⟨"a.js"⟩, ⟨3, none, [some "b.js", some "c.js"], [some "carried"], [], "", none⟩)] }

def givenFiles : FileSystem :=
  ⟨[(["w"], .directory), (["w", "b.js"], .file [98]), (["w", "c.js"], .file [99])]⟩

/-- A root whose sources are a file that something is given for and one that a caller supplies. -/
def givenTurns : List Turn :=
  [⟨givenFiles, 0, .addRoot ⟨"a.js"⟩⟩, ⟨givenFiles, 0, .addContent (some ⟨"c.js"⟩) "said"⟩,
    ⟨givenFiles, 3, .load .blocking 1⟩]

theorem given_source_is_overridden :
    givenOptions.Distinct ⟨"/w"⟩ ∧
      ((start ⟨"/w"⟩ givenOptions).playAll givenTurns).2 =
        [.node 1, .node 2, .outcome .complete] ∧
      (∃ node, ((start ⟨"/w"⟩ givenOptions).playAll givenTurns).1.graph.node? 0 = some node ∧
        node.content = some "own" ∧
        node.map = some ⟨3, some "/w/b.js", [], [], ["b"], "", none⟩) ∧
      (∀ lookup, (0, lookup) ∉ (start ⟨"/w"⟩ givenOptions).watchAll lookups givenTurns) ∧
      (start ⟨"/w"⟩ givenOptions).watchAll lookups givenTurns = [(2, .content "said")] := by
  have distinct : givenOptions.Distinct ⟨"/w"⟩ := ⟨by decide +kernel, by decide +kernel⟩
  have answers : ((start ⟨"/w"⟩ givenOptions).playAll givenTurns).2 =
      [.node 1, .node 2, .outcome .complete] := by decide +kernel
  have completed (outcome : LoadOutcome)
      (member : .outcome outcome ∈ ((start ⟨"/w"⟩ givenOptions).playAll givenTurns).2) :
      outcome = .complete := by
    rw [answers] at member
    simpa using member
  have spared : 0 ∉ (start ⟨"/w"⟩ givenOptions).supplied givenTurns := by decide +kernel
  have loaded : (((start ⟨"/w"⟩ givenOptions).playAll givenTurns).1.graph.node? 0).any
      (fun node => node.isLoaded && node.path = some (Path.absolute ⟨"/w"⟩ ⟨"b.js"⟩)) = true := by
    decide +kernel
  obtain ⟨node, present, stage⟩ := (Option.any_eq_true _ _).1 loaded
  obtain ⟨landed, named⟩ := Bool.and_eq_true_iff.1 stage
  obtain ⟨contents, maps⟩ :=
    overrides_come_first (by decide) distinct givenTurns completed
  obtain ⟨mapped, unseen⟩ := maps ⟨"b.js"⟩ _ List.mem_cons_self 0 node present
    (of_decide_eq_true named) (of_decide_eq_true landed)
  refine ⟨distinct, answers, ⟨node, present, ?_, ?_⟩, unseen, by decide +kernel⟩
  · exact contents ⟨"b.js"⟩ "own" List.mem_cons_self 0 node present (of_decide_eq_true named)
      (of_decide_eq_true landed) spared
  · rw [mapped]
    decide +kernel

def backslashTurns : List Turn :=
  [⟨.empty, 0, .addRoot ⟨"a\\b.js"⟩⟩, ⟨.empty, 1, .load .blocking 0⟩]

/-- The file name of a map that is given is the path of its node with slashes for backslashes. -/
theorem given_map_names_slashed_path :
    backslashOptions.Distinct ⟨"/tmp/vfs"⟩ ∧
      ((start ⟨"/tmp/vfs"⟩ backslashOptions).playAll backslashTurns).2 =
        [.node 0, .outcome .complete] ∧
      ∃ key map node, (key, map) ∈ backslashOptions.sourceMaps ∧
        ((start ⟨"/tmp/vfs"⟩ backslashOptions).playAll backslashTurns).1.graph.node? 0 =
          some node ∧
        node.path = some (Path.absolute ⟨"/tmp/vfs"⟩ key) ∧ node.state = .loaded ∧
        node.map ≠ some { map with file := some (Path.absolute ⟨"/tmp/vfs"⟩ key).text } := by
  refine ⟨⟨by decide +kernel, by decide +kernel⟩, by decide +kernel, ⟨"a\\b.js"⟩,
    ⟨3, none, [], [], [], "", none⟩, ?_⟩
  have loaded : (((start ⟨"/tmp/vfs"⟩ backslashOptions).playAll backslashTurns).1.graph.node? 0).any
      (fun node => node.isLoaded && node.path = some (Path.absolute ⟨"/tmp/vfs"⟩ ⟨"a\\b.js"⟩) &&
        node.map.bind (·.file) = some "/tmp/vfs/a/b.js") = true := by decide +kernel
  obtain ⟨node, present, stage⟩ := (Option.any_eq_true _ _).1 loaded
  rw [Bool.and_eq_true, Bool.and_eq_true] at stage
  obtain ⟨⟨landed, named⟩, filed⟩ := stage
  refine ⟨node, List.mem_cons_self, present, of_decide_eq_true named, of_decide_eq_true landed, ?_⟩
  intro same
  have file := of_decide_eq_true filed
  rw [same] at file
  revert file
  decide +kernel

end Session

end MapChain
