import MapChain.Proofs.Session.Asking

/-!
Contents that are loaded again and again. A source without a path is always a new node, so where a
content leads to another one, a wave that loads the one gives out the other. Main statement: a run
that asks for content that leads back to itself does not complete.
-/

set_option autoImplicit false

namespace MapChain

variable {files : FileSystem} {directory : Path} {roots : List Path}

/-- Content without a path, whose turn is to come. -/
structure Node.Pends (text : String) (node : Node) : Prop where
  queued : node.state = .queued
  nameless : node.path = none
  bare : node.map = none
  known : node.content = some text

namespace Node

variable {given : Bool → String → Prop} {text : String} {old new node : Node}

theorem Pends.await (pends : old.Pends text) (awaits : old.Awaits given new) : new.Pends text where
  queued := (awaits.visited (by simp [pends.queued])).trans pends.queued
  nameless := awaits.path.trans pends.nameless
  bare := awaits.map.trans pends.bare
  known := by
    rcases awaits.content with same | ⟨-, empty, -⟩
    · exact same.trans pends.known
    · rw [pends.known] at empty
      cases empty

theorem Pends.ask_eq (pends : node.Pends text) (id : NodeId) :
    node.ask id = ⟨id, none, some text, none⟩ := by
  rw [ask, pends.nameless, pends.known, pends.bare]

end Node

namespace Session

variable {graph : Graph} {session later : Session} {wave next pending : List NodeId}
  {requests : List Request} {request : Request} {fetched : Fetched} {id : NodeId} {node : Node}
  {text content : String}

theorem attach_child_nameless (graph : Graph) (text : String) :
    attachChild graph ⟨none, some text⟩ =
      (graph.push { Node.fresh none (some text) with state := .queued }, graph.size, true) := by
  have queued : (graph.push (.fresh none (some text))).modify graph.size
      (fun node => { node with state := .queued }) =
        graph.push { Node.fresh none (some text) with state := .queued } :=
    Graph.modify_push_size graph _ _
  simp only [attachChild, Graph.attach, Graph.node_push_size, Option.any_some, Node.fresh,
    decide_true, if_true] at queued ⊢
  rw [queued]

theorem pends_attach_children (indexed : graph.Indexed) {children : List Child}
    (member : ⟨none, some text⟩ ∈ children) :
    ∃ id ∈ (attachChildren graph children).2.2, graph.node? id = none ∧
      ∃ node, (attachChildren graph children).1.node? id = some node ∧ node.Pends text := by
  induction children generalizing graph with
  | nil => cases member
  | cons child children induction =>
      have still := indexed_attach_child indexed child
      simp only [attachChildren]
      rcases List.mem_cons.1 member with rfl | inside
      · have widens := widens_freely still children
        rw [attach_child_nameless] at widens ⊢
        obtain ⟨node, there, awaits⟩ := widens.awaits graph.size _ (Graph.node_push_size graph _)
        have fresh : ({ Node.fresh none (some text) with state := .queued } : Node).Pends text :=
          ⟨rfl, rfl, rfl, rfl⟩
        refine ⟨graph.size, by simp, Array.getElem?_eq_none (Nat.le_refl _), node, there, ?_⟩
        exact fresh.await awaits
      · obtain ⟨id, listed, absent, node, there, pends⟩ := induction still inside
        refine ⟨id, ?_, ?_, node, there, pends⟩
        · split
          · exact List.mem_cons_of_mem _ listed
          · exact listed
        · cases before : graph.node? id with
          | none => rfl
          | some old =>
              obtain ⟨new, shown, -⟩ := (grows_attach_child indexed child).persists id old before
              rw [absent] at shown
              cases shown

theorem pends_integrate (indexed : session.graph.Indexed)
    (present : session.graph.node? fetched.id = some node)
    (carried : ⟨none, some text⟩ ∈ fetched.children)
    (mapped : fetched.map = none → fetched.children = [])
    (folded : (session.integrate fetched).2 = .ok pending) :
    ∃ id ∈ pending, session.graph.node? id = none ∧
      ∃ node, (session.integrate fetched).1.graph.node? id = some node ∧ node.Pends text := by
  rcases integrate_cases session present with
    ⟨bare, -⟩ | ⟨map, fault, -, -, same⟩ | ⟨map, lines, -, -, same⟩
  · rw [mapped bare] at carried
    cases carried
  · rw [same] at folded
    cases folded
  · obtain ⟨id, listed, absent, new, there, pends⟩ :=
      pends_attach_children (indexed.land fetched) carried
    have apart : id ≠ fetched.id := by
      rintro rfl
      rw [Graph.land, Graph.node_modify_self, present] at absent
      cases absent
    rw [same] at folded ⊢
    cases folded
    refine ⟨id, listed, ?_, new, ?_, pends⟩
    · rw [Graph.land, Graph.node_modify_of_ne _ _ apart] at absent
      exact absent
    · dsimp only
      rw [Graph.equip, Graph.node_modify_of_ne _ _ apart]
      exact there

theorem pends_integrate_all (indexed : session.graph.Indexed)
    (there : ∀ request ∈ requests, ∃ node, session.graph.node? request.id = some node)
    (member : request ∈ requests) (answered : request.fetch files directory roots = .ok fetched)
    (carried : ⟨none, some text⟩ ∈ fetched.children)
    (completed : (session.integrateAll (requests.map (·.fetch files directory roots))).2 =
      .ok next) :
    ∃ id ∈ next, ∃ node, (session.integrateAll
      (requests.map (·.fetch files directory roots))).1.graph.node? id = some node ∧
        node.Pends text := by
  induction requests generalizing session next with
  | nil => cases member
  | cons first requests induction =>
      rw [List.forall_mem_cons] at there
      simp only [List.map_cons] at completed ⊢
      cases early : first.fetch files directory roots with
      | error fault =>
          rw [early] at completed
          cases completed
      | ok got =>
          rw [early] at completed
          obtain ⟨target, -, -⟩ := Request.of_fetch early
          obtain ⟨own, present⟩ := there.1
          rw [← target] at present
          have pends (same : got = fetched) (pending : List NodeId)
              (folded : (session.integrate got).2 = .ok pending) :=
            pends_integrate indexed present (same ▸ carried) (Request.map_of_fetch early).2 folded
          have folded : Graph.Folds (fun _ _ => True) [got.id] session.graph
              (session.integrate got).1.graph := folds_integrate indexed fun _ _ _ _ => trivial
          have still := indexed_integrate indexed got
          simp only [integrateAll] at completed ⊢
          generalize session.integrate got = integrated at pends folded still completed ⊢
          obtain ⟨between, fault | pending⟩ := integrated
          · cases completed
          · obtain ⟨last, ended, rfl⟩ := of_collect completed
            have onward : ∀ request ∈ requests,
                ∃ node, between.graph.node? request.id = some node := by
              intro other inside
              obtain ⟨old, before⟩ := there.2 other inside
              obtain ⟨new, found, -⟩ := folded.waits other.id old before
              exact ⟨new, found⟩
            rcases List.mem_cons.1 member with rfl | inside
            · rw [answered] at early
              cases early
              obtain ⟨id, listed, absent, node, shown, waits⟩ := pends rfl pending rfl
              have folds : Graph.Folds (fun _ _ => True) (requests.map (·.id)) between.graph
                  (between.integrateAll
                    (requests.map (·.fetch files directory roots))).1.graph :=
                folds_integrate_all still onward fun _ _ _ _ _ _ _ _ => trivial
              obtain ⟨new, found, awaits | ⟨landed, -, -⟩⟩ := folds.waits id node shown
              · exact ⟨id, List.mem_append_left last listed, new, found, waits.await awaits⟩
              · -- What was not there before this answer cannot be what the others are for.
                obtain ⟨other, inside, rfl⟩ := List.mem_map.1 landed
                obtain ⟨old, before⟩ := there.2 other inside
                rw [absent] at before
                cases before
            · obtain ⟨id, listed, node, shown, waits⟩ := induction still onward inside ended
              exact ⟨id, List.mem_append_right pending listed, node, shown, waits⟩

theorem asked_of_queued (member : id ∈ wave) (present : session.graph.node? id = some node)
    (queued : node.state = .queued) : node.ask id ∈ (session.beginWave wave).2 := by
  induction wave generalizing session with
  | nil => cases member
  | cons first wave induction =>
      rw [beginWave, List.mem_append]
      rcases begin_fetch_cases session first with ⟨idle, visited⟩ | ⟨own, there, -, handed⟩
      · rcases List.mem_cons.1 member with rfl | inside
        · exact absurd queued (visited node present)
        · rw [idle]
          exact Or.inr (induction inside present)
      · by_cases same : id = first
        · rw [← same, present] at there
          cases there
          rw [handed, same]
          exact Or.inl (List.mem_singleton.2 rfl)
        · right
          apply induction ((List.mem_cons.1 member).resolve_left same)
          rw [handed]
          dsimp only
          rw [Graph.node_modify_of_ne session.graph _ same]
          exact present

/-- A wave that loads a content gives out whatever this leads to. -/
theorem pends_next_wave (indexed : session.graph.Indexed) (member : id ∈ wave)
    (present : session.graph.node? id = some node) (pends : node.Pends text)
    (leads : files.Leads session.directory session.roots text content)
    (advanced : advanceConcurrent files (session.beginWave wave).1
      (session.beginWave wave).2 = (later, .ok next)) :
    ∃ id ∈ next, ∃ node, later.graph.node? id = some node ∧ node.Pends content := by
  obtain ⟨fetched, answered, carried⟩ := leads
  have asked := asked_of_queued member present pends.queued
  rw [pends.ask_eq] at asked
  have again := Request.fetch_with_id files session.directory session.roots
    ⟨0, none, some text, none⟩ id
  rw [answered] at again
  have hands := hands_out_begin_wave session wave
  have ended : ∀ next, (advanceConcurrent files (session.beginWave wave).1
      (session.beginWave wave).2).2 = .ok next → ∃ id ∈ next, ∃ node,
        (advanceConcurrent files (session.beginWave wave).1
          (session.beginWave wave).2).1.graph.node? id = some node ∧ node.Pends content := by
    intro next completed
    rw [advance_concurrent_eq, directory_begin_wave, roots_begin_wave] at completed ⊢
    exact pends_integrate_all (indexed_begin_wave indexed wave) (fun _ inside => hands.there inside)
      asked again carried completed
  rw [advanced] at ended
  exact ended next rfl

theorem not_complete_of_pends (indexed : session.graph.Indexed) (member : id ∈ wave)
    (present : session.graph.node? id = some node) (pends : node.Pends text)
    (returns : files.Returns session.directory session.roots text) (waves : Nat) :
    (runWaves (advanceConcurrent files) waves session wave).2 ≠ .complete := by
  induction waves generalizing session wave id node text with
  | zero =>
      cases wave with
      | nil => cases member
      | cons first wave => simp [runWaves]
  | succ waves induction =>
      obtain ⟨content, leads, onward⟩ := returns.onward
      have passes := passes_freely files indexed wave
      cases wave with
      | nil => cases member
      | cons first wave =>
          simp only [runWaves]
          cases advanced : advanceConcurrent files (session.beginWave (first :: wave)).1
              (session.beginWave (first :: wave)).2 with
          | mk later result =>
              cases result with
              | error fault => simp
              | ok next =>
                  obtain ⟨id, listed, node, there, waits⟩ :=
                    pends_next_wave indexed member present pends leads advanced
                  rw [advanced] at passes
                  rw [← passes.unmoved, ← passes.rooted] at onward
                  exact induction passes.indexed listed there waits onward

theorem Recurs.not_complete (recurs : session.Recurs files wave)
    (indexed : session.graph.Indexed) (waves : Nat) :
    (runWaves (advanceConcurrent files) waves session wave).2 ≠ .complete := by
  obtain ⟨request, text, ⟨early, later, rest, run, member⟩, nameless, bare, known, returns⟩ :=
    recurs
  obtain ⟨still, unmoved, rooted⟩ := kept_of_run indexed run
  obtain ⟨inside, node, present, queued, same⟩ :=
    (hands_out_begin_wave later rest).asked request member
  rw [same] at nameless bare known
  rw [← unmoved, ← rooted] at returns
  have onward := not_complete_of_pends still inside present ⟨queued, nameless, bare, known⟩ returns
  intro complete
  have longer := run_waves_add files waves early session wave
  have apart := run_waves_add files early waves session wave
  rw [run] at apart
  rw [Nat.add_comm, apart] at longer
  generalize runWaves (advanceConcurrent files) waves session wave = ended at complete longer
  obtain ⟨last, outcome⟩ := ended
  cases complete
  exact onward waves (congrArg Prod.snd longer)

end Session

end MapChain
