import MapChain.Proofs.Chain.Manners
import MapChain.Proofs.Session.Consistency
import MapChain.Proofs.Session.Orderly
import MapChain.Session.Call

/-!
What calls do to the graph of a session, one after the other. Main statement: however many calls
there have been, and whether their loads have failed or not, the nodes and the index agree.
-/

set_option autoImplicit false

namespace MapChain

variable {files : FileSystem} {directory : Path} {roots : List Path} {options : Options}
  {session next later : Session}

theorem SourceMap.settled_of_mem_children {origin : Option Path} {map : SourceMap} {child : Child}
    (absolute : directory.isAbsolute = true)
    (member : child ∈ map.children files directory roots origin) {own : Path}
    (named : child.path = some own) : own.IsSettled := by
  obtain ⟨index, listed⟩ := List.getElem?_of_mem member
  rw [path_of_children listed] at named
  cases shown : map.source? index with
  | none =>
      rw [shown] at named
      cases named
  | some source =>
      simp only [shown] at named
      split at named
      · cases named
      · obtain ⟨place, -, rfl⟩ := List.mem_map.1 (mem_of_pick_source named)
        exact Path.is_settled_resolve absolute _ _

namespace Session

structure Develops (session next : Session) : Prop where
  unmoved : next.directory = session.directory
  steps : Relation.ReflTransGen Graph.Step session.graph next.graph

theorem develops_refl (session : Session) : session.Develops session := ⟨rfl, .refl⟩

theorem Develops.trans (first : session.Develops next) (second : next.Develops later) :
    session.Develops later :=
  ⟨second.unmoved.trans first.unmoved, first.steps.trans second.steps⟩

theorem develops_step {graph : Graph} (session : Session) (step : session.graph.Step graph) :
    session.Develops { session with graph := graph } := ⟨rfl, .single step⟩

theorem develops_enqueue (session : Session) (root : NodeId) :
    session.Develops (session.enqueue root).1 := by
  rcases enqueue_cases session root with ⟨idle, -⟩ | ⟨node, -, -, queued⟩
  · rw [idle]
    exact develops_refl session
  · rw [queued]
    exact develops_step session (.alter root _ (fun _ => rfl) fun _ => rfl)

theorem develops_begin_wave (session : Session) (wave : List NodeId) :
    session.Develops (session.beginWave wave).1 := by
  induction wave generalizing session with
  | nil => exact develops_refl session
  | cons id wave induction =>
      have begun : session.Develops (session.beginFetch id).1 := by
        rcases begin_fetch_cases session id with ⟨idle, -⟩ | ⟨node, -, -, handed⟩
        · rw [idle]
          exact develops_refl session
        · rw [handed]
          exact develops_step session (.alter id _ (fun _ => rfl) fun _ => rfl)
      exact begun.trans (induction (session.beginFetch id).1)

theorem develops_integrate (session : Session) {fetched : Fetched}
    (settled : ∀ map, fetched.map = some map → ∀ child ∈ fetched.children, ∀ own,
      child.path = some own → own.IsSettled) :
    session.Develops (session.integrate fetched).1 := by
  have landing : session.graph.Step (session.graph.land fetched) :=
    .alter fetched.id _ (fun _ => rfl) fun _ => rfl
  cases present : session.graph.node? fetched.id with
  | none =>
      have idle : session.integrate fetched = (session, .ok []) := by simp [integrate, present]
      rw [idle]
      exact develops_refl session
  | some node =>
      rcases integrate_cases session present with
        ⟨-, same⟩ | ⟨map, fault, -, -, same⟩ | ⟨map, lines, given, -, same⟩
      · rw [same]
        exact develops_step session landing
      · rw [same]
        exact develops_step session landing
      · rw [same]
        exact ⟨rfl, .tail (.single landing)
          (.resolve fetched.id _ lines fetched.children (settled map given))⟩

theorem develops_integrate_all (absolute : directory.isAbsolute = true) (session : Session)
    (requests : List Request) :
    session.Develops
      (session.integrateAll (requests.map (·.fetch files directory roots))).1 := by
  induction requests generalizing session with
  | nil => exact develops_refl session
  | cons request requests induction =>
      rw [List.map_cons]
      cases answered : request.fetch files directory roots with
      | error fault => exact develops_refl session
      | ok fetched =>
          obtain ⟨-, -, children⟩ := Request.of_fetch answered
          have folded : session.Develops (session.integrate fetched).1 := by
            apply develops_integrate
            intro map given child member own named
            rw [children map given] at member
            exact SourceMap.settled_of_mem_children absolute member named
          simp only [integrateAll]
          generalize session.integrate fetched = integrated at folded ⊢
          obtain ⟨between, fault | pending⟩ := integrated
          · exact folded
          · exact folded.trans (induction between)

theorem develops_run_waves
    {advance : Session → List Request → Session × Except Fault (List NodeId)}
    (advances : ∀ (session : Session) requests, session.directory.isAbsolute = true →
      session.Develops (advance session requests).1)
    (waves : Nat) (session : Session) (wave : List NodeId)
    (absolute : session.directory.isAbsolute = true) :
    session.Develops (runWaves advance waves session wave).1 := by
  induction waves generalizing session wave with
  | zero => cases wave <;> exact develops_refl session
  | succ waves induction =>
      cases wave with
      | nil => exact develops_refl session
      | cons id wave =>
          have begun := develops_begin_wave session (id :: wave)
          simp only [runWaves]
          generalize session.beginWave (id :: wave) = handed at begun ⊢
          obtain ⟨between, requests⟩ := handed
          have still : between.directory.isAbsolute = true := by
            rw [begun.unmoved]
            exact absolute
          have advanced := begun.trans (advances between requests still)
          dsimp only
          generalize advance between requests = ended at advanced ⊢
          obtain ⟨last, fault | rest⟩ := ended
          · exact advanced
          · have kept : last.directory.isAbsolute = true := by
              rw [advanced.unmoved]
              exact absolute
            exact advanced.trans (induction last rest kept)

theorem is_settled_input_path (absolute : session.directory.isAbsolute = true) (file : Path) :
    (session.inputPath file).IsSettled := Path.is_settled_resolve absolute _ _

theorem develops_call (files : FileSystem) (waves : Nat)
    (absolute : session.directory.isAbsolute = true) (call : Call) :
    session.Develops (session.call files waves call).1 := by
  cases call with
  | addRoot file =>
      refine ⟨rfl, .single (.attach (some (session.inputPath file)) none ?_)⟩
      intro own named
      cases named
      exact is_settled_input_path absolute file
  | addContent file content =>
      rcases add_content_cases session file content with refused | taken
      · simp only [Session.call, refused]
        exact develops_refl session
      · simp only [Session.call, taken]
        refine ⟨rfl, .tail (.single (.attach (file.map session.inputPath) none ?_))
          (.alter _ _ (Node.path_supply content) (Node.sources_supply content))⟩
        intro own named
        obtain ⟨path, -, rfl⟩ := Option.map_eq_some_iff.1 named
        exact is_settled_input_path absolute path
  | load manner root =>
      have queued := develops_enqueue session root
      have still : (session.enqueue root).1.directory.isAbsolute = true := by
        rw [queued.unmoved]
        exact absolute
      cases manner with
      | blocking =>
          apply queued.trans
          apply develops_run_waves _ waves _ _ still
          intro between requests placed
          rw [advance_blocking_eq]
          exact develops_integrate_all placed between requests
      | concurrent schedule =>
          apply queued.trans
          apply develops_run_waves _ waves _ _ still
          intro between requests placed
          rw [advance_scheduled_eq]
          exact develops_integrate_all placed between requests

theorem steps_start (absolute : directory.isAbsolute = true) (options : Options) :
    Relation.ReflTransGen Graph.Step Graph.empty (start directory options).graph := by
  have placed (graph : Graph) (file : Path) (content : Option String) :
      graph.Step (graph.attach (some (Path.absolute directory file)) content).1 := by
    apply Graph.Step.attach
    intro own named
    cases named
    exact Path.is_settled_resolve absolute _ _
  have contents (entries : List (Path × String)) (graph : Graph) :
      Relation.ReflTransGen Graph.Step graph (entries.foldl (seedContent directory) graph) := by
    induction entries generalizing graph with
    | nil => exact .refl
    | cons entry entries induction => exact .head (placed graph entry.1 _) (induction _)
  have maps (entries : List (Path × SourceMap)) (graph : Graph) :
      Relation.ReflTransGen Graph.Step graph (entries.foldl (seedMap directory) graph) := by
    induction entries generalizing graph with
    | nil => exact .refl
    | cons entry entries induction =>
        have given : (graph.attach (some (Path.absolute directory entry.1)) none).1.Step
            (seedMap directory graph entry) := .alter _ _ (fun _ => rfl) fun _ => rfl
        exact .head (placed graph entry.1 none) (.head given (induction _))
  exact (contents options.content .empty).trans (maps options.sourceMaps _)

/-- The next session is what a call leaves behind. Files may have changed between two calls. -/
def Follows (session next : Session) : Prop :=
  ∃ files waves call, next = (session.call files waves call).1

/-- What the single steps of all calls keep is kept by calls, however many there are. -/
theorem follows_keeps (kept : Session → Prop)
    (attaches : ∀ (session : Session) path, kept session →
      kept { session with graph := (session.graph.attach path none).1 })
    (supplies : ∀ (session : Session) path content, kept session →
      kept { session with graph := session.graph.supply path content })
    (queues : ∀ session root, kept session → kept (session.enqueue root).1)
    (begins : ∀ session id, kept session → kept (session.beginFetch id).1)
    (folds : ∀ session fetched, kept session → kept (session.integrate fetched).1)
    (followed : Relation.ReflTransGen Follows session next) (holds : kept session) :
    kept next := by
  induction followed with
  | refl => exact holds
  | @tail between next earlier last induction =>
      obtain ⟨files, waves, call, rfl⟩ := last
      cases call with
      | addRoot file => exact attaches between (some (between.inputPath file)) induction
      | addContent file content =>
          rcases add_content_cases between file content with refused | taken
          · simp only [Session.call, refused]
            exact induction
          · simp only [Session.call, taken]
            exact supplies between (file.map between.inputPath) content induction
      | load manner root =>
          rw [call_load, load_blocking_eq]
          exact run_waves_keeps kept begins folds files waves _ (queues between root induction)

theorem develops_of_follows (absolute : session.directory.isAbsolute = true)
    (followed : Relation.ReflTransGen Follows session next) : session.Develops next := by
  induction followed with
  | refl => exact develops_refl session
  | tail earlier last induction =>
      obtain ⟨files, waves, call, rfl⟩ := last
      apply induction.trans
      apply develops_call
      rw [induction.unmoved]
      exact absolute

theorem orderly_of_follows (absolute : directory.isAbsolute = true)
    (followed : Relation.ReflTransGen Follows (start directory options) session) :
    session.graph.Orderly := by
  have developed : (start directory options).Develops session :=
    develops_of_follows absolute followed
  exact (Graph.orderly_empty.steps ((steps_start absolute options).trans developed.steps)).1

theorem denotes_of_call {waves : Nat} {call : Call} {id : NodeId}
    (indexed : session.graph.Indexed)
    (answered : (session.call files waves call).2 = .node id) :
    ∃ path, (session.call files waves call).1.graph.Denotes id path := by
  cases call with
  | addRoot file =>
      obtain ⟨node, present, -⟩ := Graph.node_attach indexed (some (session.inputPath file)) none
      cases answered
      exact ⟨node.path, node, present, rfl⟩
  | addContent file content =>
      obtain ⟨node, present, -⟩ := Graph.node_attach indexed (file.map session.inputPath) none
      rcases add_content_cases session file content with refused | taken
      · simp only [Session.call, refused] at answered
        cases answered
      · simp only [Session.call, taken] at answered ⊢
        cases answered
        exact ⟨node.path, (Graph.denotes_modify_iff (Node.path_supply content) _).2
          ⟨node, present, rfl⟩⟩
  | load manner root => cases manner <;> cases answered

/-- Whatever has been called, and however loads have ended: a path is found at the one node that
has it, paths are absolute and in their shortest spelling, the sources of nodes are nodes, what has
no path is a source in one place at most, and the nodes that calls have named keep their paths. -/
theorem index_agrees_with_nodes (absolute : directory.isAbsolute = true)
    (followed : Relation.ReflTransGen Follows (start directory options) session) :
    (∀ path id, session.graph.lookup path = some id ↔
        ∃ own, session.graph.Denotes id (some own) ∧ Path.Same own path) ∧
      (∀ first second path, session.graph.Denotes first (some path) →
        session.graph.Denotes second (some path) → first = second) ∧
      (∀ id path, session.graph.Denotes id (some path) → path.isAbsolute = true ∧
        .here ∉ path.components ∧ .up ∉ path.components ∧ path.normalize = path) ∧
      (∀ parent position child, session.graph.Lists parent position child →
        ∃ path, session.graph.Denotes child path) ∧
      (∀ child, session.graph.Denotes child none → ∀ parent position other place,
        session.graph.Lists parent position child → session.graph.Lists other place child →
          parent = other ∧ position = place) ∧
      (∀ files waves call id, (session.call files waves call).2 = .node id →
        ∃ path, (session.call files waves call).1.graph.Denotes id path) ∧
      ∀ later, Relation.ReflTransGen Follows session later →
        ∀ id path, session.graph.Denotes id path → later.graph.Denotes id path := by
  have orderly := orderly_of_follows absolute followed
  have developed : (start directory options).Develops session :=
    develops_of_follows absolute followed
  refine ⟨orderly.indexed.found, fun first second path => orderly.indexed.apart, ?_, orderly.valid,
    orderly.once, fun files waves call id => denotes_of_call orderly.indexed, ?_⟩
  · intro id path denotes
    have settled := orderly.settled id path denotes
    exact ⟨settled.absolute, settled.noHere, settled.noUp, settled.fixed⟩
  · intro later onward id path denotes
    have placed : session.directory.isAbsolute = true := by
      rw [developed.unmoved]
      exact absolute
    exact (orderly.steps (develops_of_follows placed onward).steps).2 id path denotes

/-- A file that comes from another one and from a content, where the other one has a map that
cannot be read. -/
def brokenOptions : Options :=
  { sourceMaps :=
      [(⟨"a.js"⟩, ⟨3, none, [some "../w/b.js", none], [none, some "x"], [], "", none⟩),
        (⟨"b.js"⟩, ⟨3, none, [], [], [], "!", none⟩)] }

def broken : Session :=
  ((start ⟨"/w"⟩ brokenOptions).call .empty 2 (.load .blocking 0)).1

theorem broken_index_agrees :
    (∃ fault, ((start ⟨"/w"⟩ brokenOptions).call .empty 2 (.load .blocking 0)).2 =
        .outcome (.failed fault)) ∧
      broken.graph.Denotes 2 none ∧ broken.graph.Lists 0 1 2 ∧
      (∀ parent position, broken.graph.Lists parent position 2 → parent = 0 ∧ position = 1) ∧
      (∀ id, broken.graph.lookup ⟨"/w//b.js"⟩ = some id ↔
        ∃ own, broken.graph.Denotes id (some own) ∧ Path.Same own ⟨"/w//b.js"⟩) ∧
      ∀ later, Relation.ReflTransGen Follows broken later → later.graph.Denotes 2 none := by
  have failed : ((start ⟨"/w"⟩ brokenOptions).call .empty 2 (.load .blocking 0)).2 =
      .outcome (.failed (.malformedMapping (some "/w/b.js")
        (.integer "!" (.foreignByte '!' 0)))) := by decide +kernel
  have absolute : Path.isAbsolute ⟨"/w"⟩ = true := by decide
  have followed : Relation.ReflTransGen Follows (start ⟨"/w"⟩ brokenOptions) broken :=
    .single ⟨.empty, 2, .load .blocking 0, by rw [broken]⟩
  have nameless : ((broken.graph.node? 2).map (·.path)) = some none := by decide +kernel
  have listed : (broken.graph.node? 0).bind (·.sources[1]?) = some 2 := by decide +kernel
  obtain ⟨node, present, bare⟩ := Option.map_eq_some_iff.1 nameless
  obtain ⟨parent, shown, second⟩ := Option.bind_eq_some_iff.1 listed
  have denotes : broken.graph.Denotes 2 none := ⟨node, present, bare⟩
  have lists : broken.graph.Lists 0 1 2 := ⟨parent, shown, second⟩
  obtain ⟨found, -, -, -, once, -, kept⟩ :=
    index_agrees_with_nodes absolute followed
  refine ⟨⟨_, failed⟩, denotes, lists, ?_, found _, ?_⟩
  · intro other position again
    exact once 2 denotes other position 0 1 again lists
  · intro later onward
    exact kept later onward 2 none denotes

end Session

end MapChain
