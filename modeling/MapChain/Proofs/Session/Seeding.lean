import MapChain.Proofs.Path.Locating
import MapChain.Proofs.Session.Accords

/-!
What the options of a session give for a path: a content, a map, or both. Main statement: where
nothing is given twice, the session starts with a node for each path that something is given for,
and this node has it.
-/

set_option autoImplicit false

namespace MapChain

structure Override where
  path : Path
  content : Option String
  map : Option SourceMap

/-- No path is given two contents, or two maps, in whatever spelling. -/
structure Options.Distinct (directory : Path) (options : Options) : Prop where
  content : (options.content.map fun entry => Path.absolute directory entry.1).Nodup
  sourceMaps : (options.sourceMaps.map fun entry => Path.absolute directory entry.1).Nodup

/-- What is given is there. Where nothing is given, anything may be. -/
structure Override.Kept (given : Override) (content : Option String) (map : Option SourceMap) :
    Prop where
  content : ∀ text, given.content = some text → content = some text
  map : ∀ own, given.map = some own → map = some own

def Override.named (given : Override) : Override :=
  { given with map := given.map.map (·.named (some given.path)) }

/-- A node has what is given for its path, unless it is being fetched. -/
structure Node.Heeds (given : Override) (node : Node) : Prop where
  path : node.path = some given.path
  waits : node.isPending = true → given.Kept node.content node.map
  landed : node.state = .loaded → given.named.Kept node.content node.map

def Graph.Heeds (graph : Graph) (given : Override) (id : NodeId) : Prop :=
  ∃ node, graph.node? id = some node ∧ node.Heeds given

theorem Path.is_settled_absolute {directory : Path} (absolute : directory.isAbsolute = true)
    (path : Path) : (Path.absolute directory path).IsSettled :=
  Path.is_settled_resolve absolute directory path

variable {given : Override} {content : Option String} {map : Option SourceMap} {graph : Graph}
  {id : NodeId} {directory : Path} {text : String} {key : Path} {options : Options}

theorem Override.Kept.name (kept : given.Kept content map) :
    given.named.Kept content (map.map (·.named (some given.path))) where
  content := kept.content
  map := by
    intro own said
    obtain ⟨before, shown, rfl⟩ := Option.map_eq_some_iff.1 said
    rw [kept.map before shown]
    rfl

namespace Node

variable {free : Bool → String → Prop} {old new : Node}

theorem heeds_of_waits (path : new.path = some given.path) (unloaded : new.state ≠ .loaded)
    (waits : given.Kept new.content new.map) : new.Heeds given where
  path := path
  waits := fun _ => waits
  landed := fun loaded => absurd loaded unloaded

theorem Heeds.await (heeds : old.Heeds given) (awaits : old.Awaits free new) :
    new.Heeds given where
  path := awaits.path.trans heeds.path
  waits := by
    intro pending
    rw [awaits.pending] at pending
    obtain ⟨kept, mapped⟩ := heeds.waits pending
    rw [awaits.map]
    refine ⟨?_, mapped⟩
    intro text said
    rcases awaits.content with same | ⟨-, empty, -⟩
    · rw [same]
      exact kept text said
    · rw [kept text said] at empty
      cases empty
  landed := by
    intro loaded
    have settled : old.isPending = false := by
      rw [← awaits.pending]
      simp [isPending, loaded]
    rw [awaits.eq_of_settled settled] at loaded ⊢
    exact heeds.landed loaded

end Node

namespace Graph

theorem Heeds.attach (heeds : graph.Heeds given id) (indexed : graph.Indexed) (path : Option Path)
    (content : Option String) : (graph.attach path content).1.Heeds given id := by
  obtain ⟨old, present, kept⟩ := heeds
  obtain ⟨new, there, -⟩ := (grows_attach indexed path content).persists id old present
  rcases node_of_attach_freely indexed there with ⟨same, before, awaits, -⟩ | ⟨absent, -, -⟩
  · rw [present] at before
    cases before
    exact ⟨new, there, kept.await awaits⟩
  · rw [present] at absent
    cases absent

theorem Heeds.modify {other : NodeId} {change : Node → Node} (heeds : graph.Heeds given id)
    (here : other = id → ∀ node, graph.node? id = some node → node.Heeds given →
      (change node).Heeds given) :
    (graph.modify other change).Heeds given id := by
  obtain ⟨node, present, kept⟩ := heeds
  by_cases same : other = id
  · refine ⟨change node, ?_, here same node present kept⟩
    rw [same, node_modify_self, present]
    rfl
  · refine ⟨node, ?_, kept⟩
    rw [node_modify_of_ne graph change fun equal => same equal.symm]
    exact present

theorem denotes_attach (indexed : graph.Indexed) (settled : graph.Settled) {own : Path}
    (placed : own.IsSettled) (content : Option String) :
    (graph.attach (some own) content).1.Denotes (graph.attach (some own) content).2
      (some own) := by
  have still : (graph.attach (some own) content).1.Settled := by
    apply settled.attach
    intro path same
    cases same
    exact placed
  obtain ⟨node, present, -, spelled⟩ := node_attach indexed (some own) content
  refine ⟨node, present, Node.path_of_is_at (spelled own rfl) placed ?_⟩
  exact fun path named => still _ path ⟨node, present, named⟩

end Graph

namespace Session

/-- A content that is given later, for whatever path, takes nothing away. -/
theorem heeds_seed_contents (indexed : graph.Indexed) (heeds : graph.Heeds given id)
    (entries : List (Path × String)) :
    (entries.foldl (seedContent directory) graph).Heeds given id := by
  induction entries generalizing graph with
  | nil => exact heeds
  | cons entry entries induction =>
      exact induction (Graph.indexed_attach indexed _ _) (heeds.attach indexed _ _)

theorem heeds_of_contents (absolute : directory.isAbsolute = true) {entries : List (Path × String)}
    (indexed : graph.Indexed)
    (absent : ∀ entry ∈ entries, graph.lookup (Path.absolute directory entry.1) = none)
    (distinct : (entries.map fun entry => Path.absolute directory entry.1).Nodup)
    (member : (key, text) ∈ entries) :
    ∃ id, (entries.foldl (seedContent directory) graph).Heeds
      ⟨Path.absolute directory key, some text, none⟩ id := by
  induction entries generalizing graph with
  | nil => cases member
  | cons entry entries induction =>
      rw [List.forall_mem_cons] at absent
      rw [List.map_cons, List.nodup_cons] at distinct
      have attached := Graph.attach_of_lookup_none absent.1 (some entry.2)
      have still := Graph.indexed_attach indexed (some (Path.absolute directory entry.1))
        (some entry.2)
      rw [List.foldl_cons, seedContent]
      rw [attached] at still ⊢
      rcases List.mem_cons.1 member with rfl | later
      · refine ⟨graph.size, heeds_seed_contents still ?_ entries⟩
        refine ⟨.fresh (some (Path.absolute directory key)) (some text), ?_, ?_⟩
        · rw [Graph.node_enter, Graph.node_push_size]
        · exact Node.heeds_of_waits rfl (by simp [Node.fresh]) ⟨fun _ said => said, by simp⟩
      · refine induction still ?_ distinct.2 later
        intro other inside
        rw [Graph.lookup_enter, Graph.lookup_push, if_neg, absent.2 other inside]
        intro same
        have equal : Path.absolute directory entry.1 = Path.absolute directory other.1 :=
          (Path.same_resolve_iff absolute directory entry.1 directory other.1).1 same
        rw [equal] at distinct
        exact distinct.1 (List.mem_map_of_mem inside)

/-- What the options give is put into a graph of which nothing has been loaded. -/
structure Sown (graph : Graph) : Prop where
  seeded : graph.Seeded
  settled : graph.Settled

theorem Sown.attach (sown : Sown graph) (absolute : directory.isAbsolute = true) (key : Path)
    (content : Option String) :
    Sown (graph.attach (some (Path.absolute directory key)) content).1 where
  seeded := sown.seeded.attach _ content
  settled := by
    apply sown.settled.attach
    intro own same
    cases same
    exact Path.is_settled_absolute absolute key

theorem Sown.seed_map (sown : Sown graph) (absolute : directory.isAbsolute = true)
    (entry : Path × SourceMap) : Sown (seedMap directory graph entry) where
  seeded := (sown.attach absolute entry.1 none).seeded.modify _ (fun _ => rfl) (fun _ => rfl)
    fun _ => rfl
  settled := (sown.attach absolute entry.1 none).settled.modify fun _ => rfl

theorem seed_map_eq (directory : Path) (graph : Graph) (entry : Path × SourceMap) :
    seedMap directory graph entry =
      (graph.attach (some (Path.absolute directory entry.1)) none).1.modify
        (graph.attach (some (Path.absolute directory entry.1)) none).2
        fun node => { node with map := some entry.2 } := rfl

theorem heeds_seed_map (absolute : directory.isAbsolute = true) (sown : Sown graph)
    (heeds : graph.Heeds given id) {entry : Path × SourceMap}
    (apart : given.map ≠ none → given.path ≠ Path.absolute directory entry.1) :
    (seedMap directory graph entry).Heeds given id := by
  have denotes := Graph.denotes_attach sown.seeded.indexed sown.settled
    (Path.is_settled_absolute absolute entry.1) none
  have untouched := (sown.attach absolute entry.1 none).seeded.untouched
  rw [seed_map_eq]
  apply (heeds.attach sown.seeded.indexed _ none).modify
  intro same node present kept
  rw [same] at denotes
  have path : some given.path = some (Path.absolute directory entry.1) :=
    kept.path.symm.trans (Graph.Denotes.unique ⟨node, present, rfl⟩ denotes)
  have unloaded := (untouched id node present).1
  refine ⟨kept.path, ?_, fun loaded => absurd loaded unloaded⟩
  intro pending
  refine ⟨(kept.waits pending).content, ?_⟩
  intro own said
  exact absurd (Option.some_inj.1 path) (apart (by simp [said]))

theorem heeds_seed_maps (absolute : directory.isAbsolute = true) (sown : Sown graph)
    (heeds : graph.Heeds given id) {entries : List (Path × SourceMap)}
    (apart : given.map ≠ none →
      given.path ∉ entries.map fun entry => Path.absolute directory entry.1) :
    (entries.foldl (seedMap directory) graph).Heeds given id := by
  induction entries generalizing graph with
  | nil => exact heeds
  | cons entry entries induction =>
      simp only [List.map_cons, List.mem_cons, not_or] at apart
      exact induction (sown.seed_map absolute entry)
        (heeds_seed_map absolute sown heeds fun mapped => (apart mapped).1)
        fun mapped => (apart mapped).2

theorem heeds_of_maps (absolute : directory.isAbsolute = true) {map : SourceMap}
    {entries : List (Path × SourceMap)} (sown : Sown graph)
    (distinct : (entries.map fun entry => Path.absolute directory entry.1).Nodup)
    (member : (key, map) ∈ entries) :
    ∃ id, (entries.foldl (seedMap directory) graph).Heeds
      ⟨Path.absolute directory key, none, some map⟩ id := by
  induction entries generalizing graph with
  | nil => cases member
  | cons entry entries induction =>
      rw [List.map_cons, List.nodup_cons] at distinct
      have still := sown.seed_map absolute entry
      rcases List.mem_cons.1 member with rfl | later
      · have untouched := (sown.attach absolute key none).seeded.untouched
        obtain ⟨node, present, named⟩ := Graph.denotes_attach sown.seeded.indexed sown.settled
          (Path.is_settled_absolute absolute key) none
        refine ⟨(graph.attach (some (Path.absolute directory key)) none).2, ?_⟩
        refine heeds_seed_maps absolute still ?_ fun _ => distinct.1
        refine ⟨{ node with map := some map }, ?_, ?_⟩
        · rw [seed_map_eq, Graph.node_modify_self, present]
          rfl
        · exact Node.heeds_of_waits named (untouched _ node present).1
            ⟨by simp, fun _ said => said⟩
      · exact induction still distinct.2 later

theorem sown_contents (absolute : directory.isAbsolute = true) (entries : List (Path × String))
    (sown : Sown graph) : Sown (entries.foldl (seedContent directory) graph) := by
  induction entries generalizing graph with
  | nil => exact sown
  | cons entry entries induction => exact induction (sown.attach absolute entry.1 (some entry.2))

theorem sown_empty : Sown .empty where
  seeded := Graph.seeded_empty
  settled := Graph.orderly_empty.settled

theorem start_heeds_content (absolute : directory.isAbsolute = true)
    (distinct : options.Distinct directory) (member : (key, text) ∈ options.content) :
    ∃ id, (start directory options).graph.Heeds
      ⟨Path.absolute directory key, some text, none⟩ id := by
  obtain ⟨id, heeds⟩ := heeds_of_contents absolute Graph.indexed_empty (fun _ _ => rfl)
    distinct.content member
  have sown := sown_contents absolute options.content sown_empty
  exact ⟨id, heeds_seed_maps absolute sown heeds fun mapped => absurd rfl mapped⟩

theorem start_heeds_map (absolute : directory.isAbsolute = true)
    (distinct : options.Distinct directory) {map : SourceMap}
    (member : (key, map) ∈ options.sourceMaps) :
    ∃ id, (start directory options).graph.Heeds
      ⟨Path.absolute directory key, none, some map⟩ id :=
  heeds_of_maps absolute (sown_contents absolute options.content sown_empty) distinct.sourceMaps
    member

end Session

end MapChain
