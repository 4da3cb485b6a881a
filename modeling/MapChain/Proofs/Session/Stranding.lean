import MapChain.Proofs.Session.Calls

/-!
What a load that fails leaves behind. Main statement: the nodes that were on their way stay so for
good; everything else keeps what was known of it and is loaded by later loads.
-/

set_option autoImplicit false

namespace MapChain

variable {files : FileSystem} {directory : Path} {options : Options} {graph later : Graph}
  {session : Session} {id : NodeId}

namespace Graph

/-- The loading of a node has begun and not ended. -/
def Stranded (graph : Graph) (id : NodeId) : Prop :=
  ∃ node, graph.node? id = some node ∧ (node.state = .queued ∨ node.state = .fetching)

def Heard (graph : Graph) : Prop :=
  ∀ parent child, graph.Source parent child →
    ∃ node, graph.node? child = some node ∧ node.state ≠ .unvisited

structure Linked (graph : Graph) : Prop where
  indexed : graph.Indexed
  heard : graph.Heard

theorem Heard.grow (heard : graph.Heard) (grows : graph.Grows later) : later.Heard := by
  rintro parent child ⟨new, there, member⟩
  cases before : graph.node? parent with
  | none =>
      rw [(grows.arrives parent new there before).2] at member
      cases member
  | some old =>
      obtain ⟨same, found, persists⟩ := grows.persists parent old before
      rw [there] at found
      cases found
      rw [persists.sources] at member
      obtain ⟨node, present, visited⟩ := heard parent child ⟨old, before, member⟩
      obtain ⟨last, shown, onward⟩ := grows.persists child node present
      exact ⟨last, shown, onward.visited visited⟩

theorem Heard.modify {change : Node → Node} (heard : graph.Heard)
    (sources : ∀ node, (change node).sources = node.sources)
    (visited : ∀ node, node.state ≠ .unvisited → (change node).state ≠ .unvisited) :
    (graph.modify id change).Heard := by
  rintro parent child ⟨new, there, member⟩
  have source : graph.Source parent child := by
    rcases node_modify_cases there with ⟨-, before⟩ | ⟨rfl, old, before, rfl⟩
    · exact ⟨new, before, member⟩
    · rw [sources] at member
      exact ⟨old, before, member⟩
  obtain ⟨node, present, begun⟩ := heard parent child source
  by_cases same : child = id
  · rw [same] at present ⊢
    refine ⟨change node, ?_, visited node begun⟩
    rw [node_modify_self, present]
    rfl
  · refine ⟨node, ?_, begun⟩
    rw [node_modify_of_ne graph change same]
    exact present

theorem Heard.equip (heard : graph.Heard) (id : NodeId) (map : SourceMap) (lines : Mappings)
    {sources : List NodeId} (begun : ∀ child ∈ sources,
      ∃ node, graph.node? child = some node ∧ node.state ≠ .unvisited) :
    (graph.equip id map lines sources).Heard := by
  rintro parent child ⟨new, there, member⟩
  obtain ⟨node, present, visited⟩ :
      ∃ node, graph.node? child = some node ∧ node.state ≠ .unvisited := by
    rcases node_modify_cases there with ⟨-, before⟩ | ⟨rfl, old, -, rfl⟩
    · exact heard parent child ⟨new, before, member⟩
    · exact begun child member
  by_cases same : child = id
  · rw [same] at present ⊢
    refine ⟨{ node with map := some map, mappings := some lines, sources := sources }, ?_, visited⟩
    rw [Graph.equip, node_modify_self, present]
    rfl
  · refine ⟨node, ?_, visited⟩
    rw [Graph.equip, node_modify_of_ne graph _ same]
    exact present

theorem Linked.grow (linked : graph.Linked) (grows : graph.Grows later) (indexed : later.Indexed) :
    later.Linked := ⟨indexed, linked.heard.grow grows⟩

theorem Seeded.linked (seeded : graph.Seeded) : graph.Linked := by
  refine ⟨seeded.indexed, ?_⟩
  rintro parent child ⟨node, present, member⟩
  rw [(seeded.untouched parent node present).2] at member
  cases member

theorem stranded_of_tidy (tidy : later.Tidy (graph.inState .queued) (graph.inState .fetching))
    (stranded : later.Stranded id) : graph.Stranded id := by
  obtain ⟨node, present, queued | fetching⟩ := stranded
  · obtain ⟨old, before, stage⟩ := mem_in_state.1 (tidy.queued id node present queued)
    exact ⟨old, before, Or.inl stage⟩
  · obtain ⟨old, before, stage⟩ := mem_in_state.1 (tidy.fetching id node present fetching)
    exact ⟨old, before, Or.inr stage⟩

theorem Stranded.grow (stranded : graph.Stranded id) (grows : graph.Grows later) :
    later.Stranded id := by
  obtain ⟨old, present, stage⟩ := stranded
  obtain ⟨new, there, persists⟩ := grows.persists id old present
  refine ⟨new, there, ?_⟩
  rcases stage with queued | fetching
  · have visited := persists.visited (by simp [queued])
    have pending : new.isPending = true := by
      rw [persists.pending]
      simp [Node.isPending, queued]
    refine Or.inl ?_
    simpa [Node.isPending, visited] using pending
  · exact Or.inr (persists.fetching fetching).1

theorem Stranded.survive (stranded : graph.Stranded id) (survives : graph.Survives [] later) :
    later.Stranded id := by
  obtain ⟨old, present, stage⟩ := stranded
  obtain ⟨new, there, outlasts, waits⟩ := survives id old present
  refine ⟨new, there, ?_⟩
  rcases stage with queued | fetching
  · exact Or.inl (waits queued List.not_mem_nil)
  · rw [outlasts.settled (by simp [Node.isPending, fetching])]
    exact Or.inr fetching

end Graph

namespace Session

theorem linked_begin_fetch (linked : session.graph.Linked) (id : NodeId) :
    (session.beginFetch id).1.graph.Linked := by
  refine ⟨indexed_begin_fetch linked.indexed id, ?_⟩
  rcases begin_fetch_cases session id with ⟨idle, -⟩ | ⟨node, -, -, handed⟩
  · rw [idle]
    exact linked.heard
  · rw [handed]
    exact linked.heard.modify (fun _ => rfl) fun _ _ => by simp

theorem linked_integrate (linked : session.graph.Linked) (fetched : Fetched) :
    (session.integrate fetched).1.graph.Linked := by
  refine ⟨indexed_integrate linked.indexed fetched, ?_⟩
  have landed : (session.graph.land fetched).Heard :=
    linked.heard.modify (fun _ => rfl) fun _ _ => by simp
  cases present : session.graph.node? fetched.id with
  | none =>
      simp only [integrate, present]
      exact linked.heard
  | some node =>
      rcases integrate_cases session present with
        ⟨-, same⟩ | ⟨map, fault, -, -, same⟩ | ⟨map, lines, -, -, same⟩
      · rw [same]
        exact landed
      · rw [same]
        exact landed
      · rw [same]
        have still := linked.indexed.land fetched
        apply (landed.grow (grows_attach_children still fetched.children)).equip
        intro child member
        obtain ⟨index, found⟩ := List.getElem?_of_mem member
        obtain ⟨inside, shown⟩ := List.getElem?_eq_some_iff.1 found
        obtain ⟨length, plays⟩ := List.forall₂_iff_get.1
          (plays_attach_children still fetched.children [])
        obtain ⟨node, there, visited, -⟩ := plays index (by omega) inside
        rw [List.get_eq_getElem, shown] at there
        exact ⟨node, there, visited⟩

theorem linked_enqueue (linked : session.graph.Linked) (root : NodeId) :
    (session.enqueue root).1.graph.Linked := by
  rcases enqueue_cases session root with ⟨idle, -⟩ | ⟨node, present, unvisited, begun⟩
  · rw [idle]
    exact linked
  · have still := indexed_enqueue linked.indexed root
    rw [begun] at still ⊢
    exact linked.grow (Graph.grows_queue present unvisited) still

theorem linked_load (linked : session.graph.Linked) (files : FileSystem) (waves : Nat)
    (root : NodeId) : (session.loadBlocking files waves root).1.graph.Linked := by
  rw [load_blocking_eq]
  exact run_waves_keeps (fun session => session.graph.Linked)
    (fun _ id linked => linked_begin_fetch linked id)
    (fun _ fetched linked => linked_integrate linked fetched) files waves _
    (linked_enqueue linked root)

theorem linked_of_follows
    (followed : Relation.ReflTransGen Follows (start directory options) session) :
    session.graph.Linked := by
  refine follows_keeps (fun session => session.graph.Linked) ?_ ?_ ?_ ?_ ?_ followed
    (seeded_start directory options).linked
  · exact fun session path linked => linked.grow (Graph.grows_attach linked.indexed path none)
      (Graph.indexed_attach linked.indexed path none)
  · exact fun session path content linked =>
      linked.grow (Graph.grows_supply linked.indexed path content)
        (Graph.indexed_supply linked.indexed path content)
  · exact fun session root linked => linked_enqueue linked root
  · exact fun session id linked => linked_begin_fetch linked id
  · exact fun session fetched linked => linked_integrate linked fetched

/-- A node whose loading has begun is not begun again, by whatever call. -/
theorem stranded_call (indexed : session.graph.Indexed) (stranded : session.graph.Stranded id)
    (files : FileSystem) (waves : Nat) (call : Call) :
    (session.call files waves call).1.graph.Stranded id := by
  cases call with
  | addRoot file =>
      exact stranded.grow (Graph.grows_attach indexed (some (session.inputPath file)) none)
  | addContent file content =>
      rcases add_content_cases session file content with refused | taken
      · simp only [Session.call, refused]
        exact stranded
      · simp only [Session.call, taken]
        exact stranded.grow (Graph.grows_supply indexed _ _)
  | load manner root =>
      rw [call_load]
      exact stranded.survive (survives_load indexed .blocking files waves root)

/-- Only a load that does not complete leaves nodes on their way. -/
theorem stranded_of_call (indexed : session.graph.Indexed) {waves : Nat} {call : Call}
    (settled : ∀ manner root, call = .load manner root →
      (session.call files waves call).2 = .outcome .complete)
    (stranded : (session.call files waves call).1.graph.Stranded id) :
    session.graph.Stranded id := by
  have tidy := session.graph.tidy_in_state
  cases call with
  | addRoot file =>
      exact Graph.stranded_of_tidy (Graph.tidy_attach tidy (some (session.inputPath file)) none)
        stranded
  | addContent file content =>
      rcases add_content_cases session file content with refused | taken
      · simp only [Session.call, refused] at stranded
        exact stranded
      · simp only [Session.call, taken] at stranded
        exact Graph.stranded_of_tidy (Graph.tidy_supply tidy _ _) stranded
  | load manner root =>
      have completed := settled manner root rfl
      rw [call_load] at completed stranded
      have ended : (session.load .blocking files waves root).2 = .complete :=
        Answer.outcome.inj completed
      exact Graph.stranded_of_tidy (tidy_of_load indexed tidy ended) stranded

theorem visited_of_reaches {root : NodeId} {node : Node} (linked : session.graph.Linked)
    {waves : Nat} (reaches : (session.loadBlocking files waves root).1.graph.Reaches root id)
    (present : (session.loadBlocking files waves root).1.graph.node? id = some node) :
    node.state ≠ .unvisited := by
  rcases Relation.ReflTransGen.cases_tail reaches with same | ⟨parent, -, source⟩
  · rw [same] at present
    have started : (session.load .blocking files waves root).1.graph.node? root = some node :=
      present
    exact visited_of_load linked.indexed started
  · obtain ⟨same, there, visited⟩ := (linked_load linked files waves root).heard parent id source
    rw [present] at there
    cases there
    exact visited

/-- Whatever loads of a session have come to: a load leaves the nodes alone that are loaded or on
their way from before, and takes nothing from those that it does not fetch; a load that completes
has loaded everything that its root came from, up to what was on its way before; what is on its way
stays so, and only a load that does not complete puts anything on its way. -/
theorem failed_loads_strand_nodes
    (followed : Relation.ReflTransGen Follows (start directory options) session)
    (files : FileSystem) (waves : Nat) :
    (∀ manner root id old, session.graph.node? id = some old →
        ∃ new, (session.call files waves (.load manner root)).1.graph.node? id = some new ∧
          old.Outlasts new) ∧
      (∀ manner root,
        (session.call files waves (.load manner root)).2 = .outcome .complete →
          ∀ id node,
            (session.call files waves (.load manner root)).1.graph.Reaches root id →
              (session.call files waves (.load manner root)).1.graph.node? id = some node →
                node.state = .loaded ∨ session.graph.Stranded id) ∧
      ∀ call id,
        (session.graph.Stranded id → (session.call files waves call).1.graph.Stranded id) ∧
          ((session.call files waves call).1.graph.Stranded id → session.graph.Stranded id ∨
            ∃ manner root, call = .load manner root ∧
              (session.call files waves call).2 ≠ .outcome .complete) := by
  have linked := linked_of_follows followed
  refine ⟨?_, ?_, ?_⟩
  · intro manner root id old present
    rw [call_load]
    obtain ⟨new, there, outlasts, -⟩ :=
      survives_load linked.indexed .blocking files waves root id old present
    exact ⟨new, there, outlasts⟩
  · intro manner root completed id node reaches present
    have settled (other : Manner) (place : NodeId)
        (same : Call.load manner root = .load other place) :
        (session.call files waves (.load manner root)).2 = .outcome .complete := completed
    have before (stage : node.state = .queued ∨ node.state = .fetching) :
        session.graph.Stranded id :=
      stranded_of_call linked.indexed settled ⟨node, present, stage⟩
    rw [call_load] at reaches present
    cases stage : node.state with
    | unvisited => exact absurd stage (visited_of_reaches linked reaches present)
    | queued => exact Or.inr (before (Or.inl stage))
    | fetching => exact Or.inr (before (Or.inr stage))
    | loaded => exact Or.inl rfl
  · intro call id
    refine ⟨fun stranded => stranded_call linked.indexed stranded files waves call, ?_⟩
    intro stranded
    by_cases incomplete : ∃ manner root, call = .load manner root ∧
        (session.call files waves call).2 ≠ .outcome .complete
    · exact Or.inr incomplete
    · refine Or.inl (stranded_of_call linked.indexed ?_ stranded)
      intro manner root same
      by_contra ended
      exact incomplete ⟨manner, root, same, ended⟩

/-- A file that came from two others: the map of one cannot be read, the other has content. -/
def haltedOptions : Options :=
  { content := [(⟨"good.js"⟩, "g")]
    sourceMaps :=
      [(⟨"r.js"⟩, ⟨3, none, [some "bad.js", some "good.js"], [], [], "", none⟩),
        (⟨"bad.js"⟩, ⟨3, none, [], [], [], "!", none⟩)] }

def halted : Session :=
  (((start ⟨"/w"⟩ haltedOptions).call .empty 3 (.addRoot ⟨"r.js"⟩)).1.call .empty 3
    (.load .blocking 1)).1

/-- After the load that fails, the file without fault is never loaded, and its content is gone. -/
theorem halted_load_loses_content :
    let opened := start ⟨"/w"⟩ haltedOptions
    let ended := opened.callAll .empty 3
      [.addRoot ⟨"r.js"⟩, .load .blocking 1, .addRoot ⟨"good.js"⟩, .load .blocking 0]
    (opened.graph.node? 0).bind (·.content) = some "g" ∧
      ended.2 = [.node 1, .outcome (.failed (.malformedMapping (some "/w/bad.js")
        (.integer "!" (.foreignByte '!' 0)))), .node 0, .outcome .complete] ∧
      (ended.1.graph.node? 0).map (fun node => (node.state, node.content)) =
        some (.fetching, none) := by
  decide +kernel

theorem halted_load_strands_nodes :
    Relation.ReflTransGen Follows (start ⟨"/w"⟩ haltedOptions) halted ∧ halted.graph.Stranded 0 ∧
      (∀ files waves call, (halted.call files waves call).1.graph.Stranded 0) ∧
      ∀ files waves manner root, ∃ node,
        (halted.call files waves (.load manner root)).1.graph.node? 1 = some node ∧
          node.state = .loaded ∧ node.sources = [2, 0] := by
  have followed : Relation.ReflTransGen Follows (start ⟨"/w"⟩ haltedOptions) halted := by
    have opened : Follows (start ⟨"/w"⟩ haltedOptions)
        ((start ⟨"/w"⟩ haltedOptions).call .empty 3 (.addRoot ⟨"r.js"⟩)).1 := ⟨_, _, _, rfl⟩
    exact .tail (.single opened) ⟨.empty, 3, .load .blocking 1, by rw [halted]⟩
  have waiting : (halted.graph.node? 0).any (·.state = .fetching) = true := by decide +kernel
  have finished : (halted.graph.node? 1).any (fun node =>
      node.state = .loaded && node.sources = [2, 0]) = true := by decide +kernel
  obtain ⟨waiter, there, fetching⟩ := (Option.any_eq_true _ _).1 waiting
  obtain ⟨parent, present, stage⟩ := (Option.any_eq_true _ _).1 finished
  rw [Bool.and_eq_true, decide_eq_true_eq, decide_eq_true_eq] at stage
  have stranded : halted.graph.Stranded 0 := ⟨waiter, there, Or.inr (of_decide_eq_true fetching)⟩
  refine ⟨followed, stranded, ?_, ?_⟩
  · intro files waves call
    obtain ⟨-, -, still⟩ := failed_loads_strand_nodes followed files waves
    exact (still call 0).1 stranded
  · intro files waves manner root
    obtain ⟨outlast, -, -⟩ := failed_loads_strand_nodes followed files waves
    obtain ⟨node, shown, outlasts⟩ := outlast manner root 1 parent present
    rw [outlasts.settled (by simp [Node.isPending, stage.1])] at shown
    exact ⟨parent, shown, stage.1, stage.2⟩

end Session

end MapChain
