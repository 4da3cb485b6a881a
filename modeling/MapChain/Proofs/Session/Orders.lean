import MapChain.Proofs.Session.Consistency
import MapChain.Proofs.Session.Quieting
import MapChain.Proofs.Session.Standing

/-!
Several roots, loaded one after the other. Main statement: where no map carries content, digests
tell the texts of maps apart and all loads complete in one order, they complete in every order, and
whatever there is at a path is the same. Two texts with one digest are enough to make a difference.
-/

set_option autoImplicit false

namespace MapChain

variable {files : FileSystem} {directory : Path} {options : Options} {origin session : Session}
  {roots : List Path} {entries : List (Path × Manner)} {wave : List NodeId} {paths : Finset Path}

def Manner.load (manner : Manner) (files : FileSystem) (waves : Nat) (session : Session)
    (root : NodeId) : Session × LoadOutcome :=
  match manner with
  | .blocking => session.loadBlocking files waves root
  | .concurrent schedule => session.loadScheduled schedule files waves root

namespace Graph

open Classical in
noncomputable def missing (graph : Graph) (paths : Finset Path) : Finset Path :=
  paths.filter fun own => ¬graph.Holds (some own)

theorem mem_missing {graph : Graph} {own : Path} :
    own ∈ graph.missing paths ↔ own ∈ paths ∧ ¬graph.Holds (some own) := by
  classical
  rw [missing, Finset.mem_filter]

theorem card_missing_le (graph : Graph) (paths : Finset Path) :
    (graph.missing paths).card ≤ paths.card := by
  classical
  exact Finset.card_filter_le _ _

theorem Matures.missing_subset {graph later : Graph} (matures : graph.Matures later)
    (paths : Finset Path) : later.missing paths ⊆ graph.missing paths := by
  intro own member
  obtain ⟨listed, absent⟩ := mem_missing.1 member
  exact mem_missing.2 ⟨listed, fun holds => absent (holds.mature matures)⟩

/-- A path is missing no more once its node has been loaded. -/
theorem Matures.missing_lt {graph later : Graph} {id : NodeId} {node : Node} {own : Path}
    (matures : graph.Matures later) (indexed : graph.Indexed) (listed : own ∈ paths)
    (present : graph.node? id = some node) (named : node.path = some own)
    (unloaded : node.state ≠ .loaded) (holds : later.Holds (some own)) :
    (later.missing paths).card < (graph.missing paths).card := by
  have absent : ¬graph.Holds (some own) := by
    rintro ⟨other, same, there, spelled, loaded⟩
    rw [← indexed.apart ⟨node, present, named⟩ ⟨same, there, spelled⟩, present] at there
    cases there
    exact unloaded loaded
  apply Finset.card_lt_card
  rw [Finset.ssubset_iff_of_subset (matures.missing_subset paths)]
  exact ⟨own, mem_missing.2 ⟨listed, absent⟩, fun member => (mem_missing.1 member).2 holds⟩

theorem Holds.mem_known {graph : Graph} {own : Path} (holds : graph.Holds (some own)) :
    own ∈ graph.known := by
  obtain ⟨id, node, present, named, -⟩ := holds
  exact Graph.mem_known present named

end Graph

namespace Session

/-- Adds each root and loads it before the next one is added. -/
def loadRoots (files : FileSystem) (waves : Nat) (session : Session) :
    List (Path × Manner) → Session × List LoadOutcome
  | [] => (session, [])
  | (file, manner) :: entries =>
      let (session, root) := session.addRoot file
      let (session, outcome) := manner.load files waves session root
      let (session, outcomes) := loadRoots files waves session entries
      (session, outcome :: outcomes)

/-- Whatever the roots need can be fetched, and its text can be decoded. -/
def Readable (files : FileSystem) (origin : Session) (roots : List Path) : Prop :=
  ∀ path, origin.Needs files roots path → ∃ fetched, origin.answer files path = .ok fetched ∧
    ∀ map, fetched.map = some map → ∃ lines, Mappings.decode map.mappings = .ok lines

theorem manner_load_eq (manner : Manner) (files : FileSystem) (waves : Nat) (session : Session)
    (root : NodeId) :
    manner.load files waves session root = session.load .blocking files waves root := by
  cases manner with
  | blocking => rfl
  | concurrent schedule => exact load_scheduled_eq schedule files waves session root

theorem Standing.load_roots (standing : Standing files origin roots session)
    (untouched : origin.Untouched) (barren : origin.Barren files roots)
    (asked : ∀ entry ∈ entries, entry.1 ∈ roots) {waves : Nat}
    (completed : ∀ outcome ∈ (loadRoots files waves session entries).2, outcome = .complete) :
    Standing files origin roots (loadRoots files waves session entries).1 ∧
      session.graph.Matures (loadRoots files waves session entries).1.graph ∧
      ∀ entry ∈ entries, (loadRoots files waves session entries).1.graph.Holds
        (some (origin.inputPath entry.1)) := by
  induction entries generalizing session with
  | nil => exact ⟨standing, Graph.matures_refl session.graph, by simp⟩
  | cons entry entries induction =>
      obtain ⟨file, manner⟩ := entry
      rw [List.forall_mem_cons] at asked
      obtain ⟨added, grown, denotes⟩ := standing.add_root untouched asked.1
      simp only [loadRoots, manner_load_eq, List.forall_mem_cons] at completed ⊢
      obtain ⟨first, rest⟩ := completed
      obtain ⟨loaded, matures, holds⟩ :=
        added.load untouched barren denotes (.root asked.1) first
      obtain ⟨last, onward, others⟩ := induction loaded asked.2 rest
      exact ⟨last, (grown.trans matures).trans onward, holds.mature onward, others⟩

theorem finished_of_load_roots (absolute : directory.isAbsolute = true)
    (barren : (start directory options).Barren files roots)
    (same : (entries.map (·.1)).Perm roots) {waves : Nat}
    (completed : ∀ outcome ∈ (loadRoots files waves (start directory options) entries).2,
      outcome = .complete) :
    Finished files (start directory options) roots
      (loadRoots files waves (start directory options) entries).1 := by
  have untouched := untouched_start absolute options
  obtain ⟨standing, -, holds⟩ := (standing_start files absolute options roots).load_roots untouched
    barren (fun entry member => same.mem_iff.1 (List.mem_map_of_mem member)) completed
  refine ⟨standing, ?_⟩
  intro file member
  obtain ⟨entry, inside, rfl⟩ := List.mem_map.1 (same.mem_iff.2 member)
  exact holds entry inside

theorem Finished.readable (finished : Finished files origin roots session)
    (untouched : origin.Untouched)
    (apart : Set.InjOn DecodeCache.key (origin.neededTexts files roots)) :
    Readable files origin roots := by
  intro path needs
  obtain ⟨id, node, present, rfl, loaded⟩ := finished.holds untouched needs
  obtain ⟨fetched, answered, -⟩ := (finished.accord present).landed loaded
  refine ⟨fetched, answered, ?_⟩
  intro map carried
  obtain ⟨lines, -, decodes⟩ := (finished.mappings_eq present loaded answered).2 map carried
  exact ⟨lines, finished.decode_eq apart ⟨_, fetched, map, needs, answered, carried, rfl⟩ decodes⟩

theorem decode_of_decoded {text : String} {lines : Mappings}
    (read : Mappings.decode text = .ok lines) (cache : DecodeCache) :
    ∃ answer, (cache.decode text).2 = .ok answer := by
  unfold DecodeCache.decode
  cases cache.find? text with
  | some remembered => exact ⟨remembered, rfl⟩
  | none =>
      rw [read]
      exact ⟨lines, rfl⟩

theorem Readable.step (readable : Readable files origin roots) {request : Request}
    {flight : List Request}
    (sound : session.Sound files origin.directory origin.roots (request :: flight))
    (accords : session.graph.Accords files origin roots (request :: flight) []) :
    ∃ fetched pending, request.fetch files origin.directory origin.roots = .ok fetched ∧
      (session.integrate fetched).2 = .ok pending := by
  obtain ⟨node, present, fetching, -⟩ := sound.flying.waits request List.mem_cons_self
  obtain ⟨said, answered, read⟩ :=
    readable node.path (accords.needs_of_fetching present fetching)
  have own := (accords.nodes request.id node present (by simp)).flies fetching request
    List.mem_cons_self rfl
  have fetched := fetch_of_answer answered request.id
  rw [← own] at fetched
  have target : session.graph.node? ({ said with id := request.id } : Fetched).id = some node :=
    present
  refine ⟨{ said with id := request.id }, ?_⟩
  rcases integrate_cases session target with
    ⟨-, same⟩ | ⟨map, fault, given, failed, -⟩ | ⟨map, lines, -, -, same⟩
  · exact ⟨[], fetched, by rw [same]⟩
  · obtain ⟨lines, decoded⟩ := read map given
    obtain ⟨answer, found⟩ := decode_of_decoded decoded session.cache
    rw [failed] at found
    cases found
  · exact ⟨_, fetched, by rw [same]⟩

theorem Readable.integrate_all (readable : Readable files origin roots) {requests : List Request}
    (sound : session.Sound files origin.directory origin.roots requests)
    (accords : session.graph.Accords files origin roots requests [])
    (untouched : origin.Untouched) (barren : origin.Barren files roots) :
    ∃ next, (session.integrateAll
      (requests.map (·.fetch files origin.directory origin.roots))).2 = .ok next := by
  induction requests generalizing session with
  | nil => exact ⟨[], rfl⟩
  | cons request requests induction =>
      obtain ⟨fetched, pending, answered, folded⟩ := readable.step sound accords
      have still := sound.integrate answered
      have onward := accords_integrate sound accords untouched barren answered folded
      simp only [List.map_cons, answered, integrateAll]
      generalize session.integrate fetched = integrated at folded still onward ⊢
      obtain ⟨between, ended⟩ := integrated
      obtain rfl : ended = .ok pending := folded
      obtain ⟨next, completed⟩ := induction still onward
      exact ⟨pending ++ next, by simp [collect, completed, Except.map]⟩

/-- A wave of nodes without paths is the last one. -/
theorem nil_of_nameless (untouched : origin.Untouched)
    (sound : session.Sound files origin.directory origin.roots [])
    (accords : session.graph.Accords files origin roots [] [])
    (nameless : ∀ request ∈ (session.beginWave wave).2, request.path = none) {next : List NodeId}
    (completed : (advanceConcurrent files (session.beginWave wave).1
      (session.beginWave wave).2).2 = .ok next) : next = [] := by
  have begun := sound.begin_wave wave
  have handed := accords_begin_wave accords untouched sound.flying wave
  rw [List.nil_append] at begun handed
  rw [advance_concurrent_eq, begun.unmoved, begun.rooted] at completed
  refine nil_of_childless ?_ completed
  intro fetched member
  obtain ⟨request, inside, answered⟩ := List.mem_map.1 member
  obtain ⟨node, present, fetching, path, -⟩ := begun.flying.waits request inside
  have own := (handed.nodes request.id node present (by simp)).flies fetching request inside rfl
  rw [path, nameless request inside, seed_none] at own
  rw [own] at answered
  cases answered
  rfl

/-- A wave in a readable session loads the paths of its nodes, and goes on to the next wave. -/
theorem Readable.next_wave (readable : Readable files origin roots) (untouched : origin.Untouched)
    (barren : origin.Barren files roots)
    (sound : session.Sound files origin.directory origin.roots [])
    (tidy : session.graph.Tidy wave []) (accords : session.graph.Accords files origin roots [] [])
    (listed : ∀ own, origin.Needs files roots (some own) → own ∈ paths) :
    ∃ last next, advanceConcurrent files (session.beginWave wave).1 (session.beginWave wave).2 =
        (last, .ok next) ∧
      last.Sound files origin.directory origin.roots [] ∧ last.graph.Tidy next [] ∧
      last.graph.Accords files origin roots [] [] ∧
      (next = [] ∨ (last.graph.missing paths).card < (session.graph.missing paths).card) := by
  have begun := sound.begin_wave wave
  have handed := accords_begin_wave accords untouched sound.flying wave
  have hands := hands_out_begin_wave session wave
  have passes := passes_freely files sound.indexed wave
  rw [← List.append_nil wave] at tidy
  have waiting := tidy_begin_wave tidy
  rw [List.nil_append] at begun handed waiting
  rw [← List.append_nil ((session.beginWave wave).2.map (·.id))] at waiting
  obtain ⟨next, completed⟩ := readable.integrate_all begun handed untouched barren
  have onward := accords_integrate_all begun handed untouched barren completed
  have tidied := tidy_integrate_all begun.indexed waiting completed
  have still := begun.integrate_all.1
  have nothing (nameless : ∀ request ∈ (session.beginWave wave).2, request.path = none)
      (next : List NodeId)
      (ended : (advanceConcurrent files (session.beginWave wave).1
        (session.beginWave wave).2).2 = .ok next) :=
    nil_of_nameless untouched sound accords nameless ended
  have settled (request : Request) (member : request ∈ (session.beginWave wave).2) :=
    settled_of_wave sound.indexed files member
  rw [advance_concurrent_eq, begun.unmoved, begun.rooted] at passes nothing settled ⊢
  refine ⟨_, next, Prod.ext rfl completed, still, tidied, onward, ?_⟩
  by_cases nameless : ∀ request ∈ (session.beginWave wave).2, request.path = none
  · exact Or.inl (nothing nameless next completed)
  · push Not at nameless
    obtain ⟨request, member, named⟩ := nameless
    obtain ⟨own, spelled⟩ := Option.ne_none_iff_exists'.1 named
    obtain ⟨-, old, present, queued, asked⟩ := hands.asked request member
    have path : old.path = some own := by
      rw [asked] at spelled
      exact spelled
    obtain ⟨new, there, gone⟩ := settled request member
    obtain ⟨same, shown, outlasts, -⟩ := passes.survives request.id old present
    rw [there] at shown
    cases shown
    have loaded : new.state = .loaded := by
      rcases Node.is_pending_eq_false_iff.1 gone with fetching | loaded
      · have flying := tidied.fetching request.id new there fetching
        cases flying
      · exact loaded
    have needs : origin.Needs files roots (some own) := by
      rcases (accords.nodes request.id old present (by simp)).needed with needs | ⟨unvisited, -⟩
      · rw [← path]
        exact needs
      · rw [queued] at unvisited
        cases unvisited
    exact Or.inr (passes.survives.matures.missing_lt sound.indexed (listed own needs) present path
      (by simp [queued]) ⟨request.id, new, there, outlasts.path.trans path, loaded⟩)

/-- In a readable session, waves come to an end once every path that is needed has had its turn. -/
theorem Readable.run_waves (readable : Readable files origin roots) (untouched : origin.Untouched)
    (barren : origin.Barren files roots)
    (sound : session.Sound files origin.directory origin.roots [])
    (tidy : session.graph.Tidy wave []) (accords : session.graph.Accords files origin roots [] [])
    (listed : ∀ own, origin.Needs files roots (some own) → own ∈ paths) {waves : Nat}
    (enough : (session.graph.missing paths).card < waves) :
    (runWaves (advanceConcurrent files) waves session wave).2 = .complete := by
  induction waves generalizing session wave with
  | zero => exact absurd enough (Nat.not_lt_zero _)
  | succ waves induction =>
      cases wave with
      | nil => rfl
      | cons id wave =>
          obtain ⟨last, next, advanced, still, tidied, onward, ends⟩ :=
            readable.next_wave untouched barren sound tidy accords listed
          simp only [runWaves, advanced]
          rcases ends with rfl | fewer
          · rw [run_waves_nil]
          · exact induction still tidied onward
              (Nat.lt_of_lt_of_le fewer (Nat.le_of_lt_succ enough))

theorem Standing.complete (standing : Standing files origin roots session)
    (readable : Readable files origin roots) (untouched : origin.Untouched)
    (barren : origin.Barren files roots) {root : NodeId} {own : Option Path}
    (denotes : session.graph.Denotes root own) (needs : origin.Needs files roots own)
    (listed : ∀ own, origin.Needs files roots (some own) → own ∈ paths) {waves : Nat}
    (enough : paths.card < waves) :
    (session.load .blocking files waves root).2 = .complete := by
  obtain ⟨node, present, named⟩ := denotes
  have tidy := tidy_enqueue standing.tidy root
  rw [List.append_nil] at tidy
  rw [load_eq]
  apply readable.run_waves untouched barren (standing.sound.enqueue root) tidy _ listed
  · exact Nat.lt_of_le_of_lt (Graph.card_missing_le _ paths) enough
  · apply accords_enqueue standing.accords
    intro other shown
    rw [present] at shown
    cases shown
    rw [named]
    exact needs

/-- Once one order of the roots has been loaded, every other order can be. -/
theorem Standing.all_complete (standing : Standing files origin roots session)
    (readable : Readable files origin roots) (untouched : origin.Untouched)
    (barren : origin.Barren files roots)
    (asked : ∀ entry ∈ entries, entry.1 ∈ roots)
    (listed : ∀ own, origin.Needs files roots (some own) → own ∈ paths) {waves : Nat}
    (enough : paths.card < waves) :
    ∀ outcome ∈ (loadRoots files waves session entries).2, outcome = .complete := by
  induction entries generalizing session with
  | nil => simp [loadRoots]
  | cons entry entries induction =>
      obtain ⟨file, manner⟩ := entry
      rw [List.forall_mem_cons] at asked
      obtain ⟨added, -, denotes⟩ := standing.add_root untouched asked.1
      have completed := added.complete readable untouched barren denotes (.root asked.1) listed
        enough
      obtain ⟨loaded, -, -⟩ := added.load untouched barren denotes (.root asked.1) completed
      simp only [loadRoots, manner_load_eq, List.forall_mem_cons]
      exact ⟨completed, induction loaded asked.2⟩

/-- No map that the roots lead to carries content, and all loads complete in one order. Then in
every other order in which they complete, each path has the same node, up to the lines that were
decoded. Where digests tell the texts of these maps apart, the loads do complete in every order, and
the lines are the same as well. -/
theorem roots_load_in_any_order (absolute : directory.isAbsolute = true)
    {first second : List (Path × Manner)} (same : (first.map (·.1)).Perm (second.map (·.1)))
    (barren : (start directory options).Barren files (first.map (·.1))) {waves : Nat}
    (completed : ∀ outcome ∈ (loadRoots files waves (start directory options) first).2,
      outcome = .complete) :
    (∀ more, (∀ outcome ∈ (loadRoots files more (start directory options) second).2,
        outcome = .complete) → ∀ path,
      ((loadRoots files more (start directory options) second).1.graph.account path).map
          Account.unread =
        ((loadRoots files waves (start directory options) first).1.graph.account path).map
          Account.unread) ∧
      (Set.InjOn DecodeCache.key
          ((start directory options).neededTexts files (first.map (·.1))) →
        ∃ bound, ∀ more, bound ≤ more →
          (∀ outcome ∈ (loadRoots files more (start directory options) second).2,
            outcome = .complete) ∧
          ∀ path, (loadRoots files more (start directory options) second).1.graph.account path =
            (loadRoots files waves (start directory options) first).1.graph.account path) := by
  have untouched := untouched_start absolute options
  have finished := finished_of_load_roots absolute barren (.refl _) completed
  have again (more : Nat)
      (ended : ∀ outcome ∈ (loadRoots files more (start directory options) second).2,
        outcome = .complete) := finished_of_load_roots absolute barren same.symm ended
  constructor
  · intro more ended path
    exact (finished.account_eq (again more ended) untouched path).1
  · intro apart
    classical
    have readable := finished.readable untouched apart
    refine ⟨(loadRoots files waves (start directory options) first).1.graph.known.toFinset.card + 1,
      ?_⟩
    intro more enough
    have ended := (standing_start files absolute options (first.map (·.1))).all_complete
      readable untouched barren
      (fun entry member => same.mem_iff.2 (List.mem_map_of_mem member))
      (fun own needs => List.mem_toFinset.2 (finished.holds untouched needs).mem_known) enough
    exact ⟨ended, fun path => (finished.account_eq (again more ended) untouched path).2 apart⟩

def commonOptions : Options :=
  { sourceMaps :=
      [(⟨"a.js"⟩, ⟨3, none, [some "c.ts", some "d.ts"], [], [], "AAAA", none⟩),
        (⟨"b.js"⟩, ⟨3, none, [some "d.ts", none], [none], [], ";AAAA", none⟩)] }

def commonFiles : FileSystem :=
  ⟨[(["w"], .directory), (["w", "c.ts"], .file [120]), (["w", "d.ts"], .file [])]⟩

def commonPaths : List (Option Path) :=
  [some ⟨"/w/a.js"⟩, some ⟨"/w/b.js"⟩, some ⟨"/w/c.ts"⟩, some ⟨"/w/d.ts"⟩, none]

def commonCheck (fetched : Fetched) : Bool :=
  fetched.children.all (commonPaths.contains ·.path) && fetched.map.all fun map =>
    map.sourcesContent.all (·.isNone) && ["AAAA", ";AAAA"].contains map.mappings

theorem common_check {path : Option Path} (member : path ∈ commonPaths) {fetched : Fetched}
    (answered : (start ⟨"/w"⟩ commonOptions).answer commonFiles path = .ok fetched) :
    commonCheck fetched = true := by
  have checked : commonPaths.all (fun path =>
      ((start ⟨"/w"⟩ commonOptions).answer commonFiles path).toOption.all commonCheck) = true := by
    decide +kernel
  have here := List.all_eq_true.1 checked path member
  rw [answered] at here
  exact here

theorem mem_common_paths {path : Option Path}
    (needs : (start ⟨"/w"⟩ commonOptions).Needs commonFiles [⟨"a.js"⟩, ⟨"b.js"⟩] path) :
    path ∈ commonPaths := by
  induction needs with
  | root member =>
      have rooted : ∀ file ∈ [(⟨"a.js"⟩ : Path), ⟨"b.js"⟩],
          some ((start ⟨"/w"⟩ commonOptions).inputPath file) ∈ commonPaths := by decide +kernel
      exact rooted _ member
  | source needs answered member induction =>
      have checked := common_check induction answered
      rw [commonCheck, Bool.and_eq_true, List.all_eq_true] at checked
      exact List.contains_iff_mem.1 (checked.1 _ member)

def commonFirst : List (Path × Manner) := [(⟨"a.js"⟩, .blocking), (⟨"b.js"⟩, .concurrent .inTurn)]

def commonSecond : List (Path × Manner) := [(⟨"b.js"⟩, .blocking), (⟨"a.js"⟩, .blocking)]

def common (entries : List (Path × Manner)) (waves : Nat) : Session × List LoadOutcome :=
  loadRoots commonFiles waves (start ⟨"/w"⟩ commonOptions) entries

/-- Nodes get other numbers in the other order, and are the same otherwise. -/
theorem common_source_in_any_order :
    (common commonFirst 3).2 = [.complete, .complete] ∧
      (common commonFirst 3).1.graph.lookup ⟨"/w/c.ts"⟩ = some 2 ∧
      (common commonSecond 3).1.graph.lookup ⟨"/w/c.ts"⟩ = some 4 ∧
      ∃ bound, ∀ more, bound ≤ more →
        (∀ outcome ∈ (common commonSecond more).2, outcome = .complete) ∧
        ∀ path, (common commonSecond more).1.graph.account path =
          (common commonFirst 3).1.graph.account path := by
  have completed : (common commonFirst 3).2 = [.complete, .complete] := by decide +kernel
  have mapped (path : Option Path) (fetched : Fetched) (map : SourceMap)
      (needs : (start ⟨"/w"⟩ commonOptions).Needs commonFiles [⟨"a.js"⟩, ⟨"b.js"⟩] path)
      (answered : (start ⟨"/w"⟩ commonOptions).answer commonFiles path = .ok fetched)
      (carried : fetched.map = some map) :
      (∀ entry ∈ map.sourcesContent, entry.isNone = true) ∧
        map.mappings ∈ ["AAAA", ";AAAA"] := by
    have checked := common_check (mem_common_paths needs) answered
    rw [commonCheck, carried, Option.all_some, Bool.and_eq_true, Bool.and_eq_true,
      List.all_eq_true] at checked
    exact ⟨List.all_eq_true.1 checked.2.1, List.contains_iff_mem.1 checked.2.2⟩
  have barren : (start ⟨"/w"⟩ commonOptions).Barren commonFiles (commonFirst.map (·.1)) := by
    intro path fetched map needs answered carried index
    have empty := (mapped path fetched map needs answered carried).1
    cases entry : map.sourcesContent[index]? with
    | none => rw [SourceMap.content?, entry, Option.join_none]
    | some content =>
        have bare := Option.isNone_iff_eq_none.1 (empty content (List.mem_of_getElem? entry))
        rw [SourceMap.content?, entry, bare, Option.join_some]
  have digests : (["AAAA", ";AAAA"].map DecodeCache.key).Nodup := by decide +kernel
  have apart : Set.InjOn DecodeCache.key
      ((start ⟨"/w"⟩ commonOptions).neededTexts commonFiles (commonFirst.map (·.1))) := by
    rintro - ⟨path, fetched, map, needs, answered, carried, rfl⟩ -
      ⟨other, again, own, asked, got, held, rfl⟩ same
    exact List.inj_on_of_nodup_map digests (mapped path fetched map needs answered carried).2
      (mapped other again own asked got held).2 same
  have ended : ∀ outcome ∈ (common commonFirst 3).2, outcome = .complete := by
    rw [completed]
    simp
  have absolute : Path.isAbsolute ⟨"/w"⟩ = true := by decide
  have swapped : (commonFirst.map (·.1)).Perm (commonSecond.map (·.1)) := .swap _ _ _
  obtain ⟨-, ordered⟩ := roots_load_in_any_order absolute swapped barren ended
  have numbered : (common commonFirst 3).1.graph.lookup ⟨"/w/c.ts"⟩ = some 2 := by decide +kernel
  have renumbered : (common commonSecond 3).1.graph.lookup ⟨"/w/c.ts"⟩ = some 4 := by
    decide +kernel
  refine ⟨completed, numbered, renumbered, ?_⟩
  unfold common
  exact ordered apart

section

variable {first second : String} {read again : Option Mappings} {cache : DecodeCache}
  {id : NodeId}

theorem add_root_pair_first : (paired first second read again cache).addRoot ⟨"/a"⟩ =
    (paired first second read again cache, 0) := by
  have here : Path.absolute ⟨"/"⟩ ⟨Path.withoutFileProtocol "/a"⟩ = ⟨"/a"⟩ := by decide +kernel
  have found : ¬Path.Same ⟨"/b"⟩ ⟨"/a"⟩ ∧ Path.Same ⟨"/a"⟩ ⟨"/a"⟩ := by decide +kernel
  cases read <;> simp [paired, pairNode, addRoot, inputPath, here, found, Graph.attach,
    Graph.lookup, Graph.modify, Node.offer]

theorem add_root_pair_second : (paired first second read again cache).addRoot ⟨"/b"⟩ =
    (paired first second read again cache, 1) := by
  have here : Path.absolute ⟨"/"⟩ ⟨Path.withoutFileProtocol "/b"⟩ = ⟨"/b"⟩ := by decide +kernel
  have found : Path.Same ⟨"/b"⟩ ⟨"/b"⟩ := by decide +kernel
  cases again <;> simp [paired, pairNode, addRoot, inputPath, here, found, Graph.attach,
    Graph.lookup, Graph.modify, Node.offer]

theorem account_pair : ((paired first second read again cache).graph.account ⟨"/a"⟩).map
    (·.mappings) = some read := by
  have found : ¬Path.Same ⟨"/b"⟩ ⟨"/a"⟩ ∧ Path.Same ⟨"/a"⟩ ⟨"/a"⟩ := by decide +kernel
  cases read <;> simp [paired, pairNode, Graph.account, Graph.lookup, Graph.node?, found]

theorem seed_pair (first second : String) (cache : DecodeCache) (path : Option Path) :
    ((paired first second none none cache).seed path).content = none ∧
      ∀ map, ((paired first second none none cache).seed path).map = some map →
        map.sourcesContent = [] := by
  unfold seed
  cases found : path.bind fun path =>
      ((paired first second none none cache).graph.lookup path).bind
        (paired first second none none cache).graph.node? with
  | none => exact ⟨rfl, by simp [Node.fresh]⟩
  | some node =>
      obtain ⟨own, -, there⟩ := Option.bind_eq_some_iff.1 found
      obtain ⟨id, -, present⟩ := Option.bind_eq_some_iff.1 there
      have member := Array.mem_of_getElem? present
      simp only [paired, List.mem_toArray, List.mem_cons, List.not_mem_nil, or_false] at member
      rcases member with rfl | rfl <;> simp [pairNode]

theorem map_of_bare_fetch {node : Node} {fetched : Fetched} {map : SourceMap}
    (bare : node.content = none)
    (answered : (node.ask id).fetch .empty directory roots = .ok fetched)
    (carried : fetched.map = some map) : node.map = some map := by
  obtain ⟨mapped, -⟩ := Request.map_of_fetch answered
  have unheld : (node.ask id).fetchContent .empty = none := by
    rw [Request.fetchContent, Node.ask, bare, Option.none_or]
    cases node.path with
    | none => rfl
    | some own => exact read_empty own
  rw [unheld, carried] at mapped
  cases supplied : node.map with
  | none =>
      have asked : (node.ask id).map = none := supplied
      simp [Request.fetchMap, asked] at mapped
  | some own =>
      have asked : (node.ask id).map = some own := supplied
      simp only [Request.fetchMap, asked, Except.ok.injEq] at mapped
      exact mapped

theorem barren_pair (first second : String) :
    (start ⟨"/"⟩ (pairOptions first second)).Barren .empty [⟨"/a"⟩, ⟨"/b"⟩] := by
  intro path fetched map _ answered carried index
  rw [start_pair] at answered
  obtain ⟨bare, empty⟩ := seed_pair first second (.empty DecodeCache.defaultCapacity) path
  rw [SourceMap.content?, empty map (map_of_bare_fetch bare answered carried)]
  rfl

end

/-- Of two maps whose texts have one digest, the one that is loaded first settles the lines of
both. -/
theorem lines_may_depend_on_order : ∃ first second,
    (start ⟨"/"⟩ (pairOptions first second)).Barren .empty [⟨"/a"⟩, ⟨"/b"⟩] ∧
      ∃ one other,
        loadRoots .empty 1 (start ⟨"/"⟩ (pairOptions first second))
            [(⟨"/a"⟩, .blocking), (⟨"/b"⟩, .blocking)] = (one, [.complete, .complete]) ∧
          loadRoots .empty 1 (start ⟨"/"⟩ (pairOptions first second))
            [(⟨"/b"⟩, .blocking), (⟨"/a"⟩, .blocking)] = (other, [.complete, .complete]) ∧
          one.graph.account ⟨"/a"⟩ ≠ other.graph.account ⟨"/a"⟩ := by
  obtain ⟨first, second, lines, own, same, read, again, different⟩ := DecodeCache.exists_collision
  obtain ⟨middle, last, fresh, known⟩ := decode_pair read same
  obtain ⟨between, final, anew, held⟩ := decode_pair again same.symm
  refine ⟨first, second, barren_pair first second,
    paired first second (some lines) (some lines) last,
    paired first second (some own) (some own) final, ?_, ?_, ?_⟩
  · rw [start_pair]
    simp only [loadRoots, manner_load_eq, add_root_pair_first, add_root_pair_second,
      load_pair_first fresh, load_pair_second known]
  · rw [start_pair]
    simp only [loadRoots, manner_load_eq, add_root_pair_first, add_root_pair_second,
      load_pair_second anew, load_pair_first held]
  · intro equal
    have mappings := congrArg (Option.map (·.mappings)) equal
    rw [account_pair, account_pair] at mappings
    cases mappings
    exact different rfl

end Session

end MapChain
