import MapChain.Proofs.Path.Settling
import MapChain.Proofs.Session.Integrating

/-!
The order in a graph that does not depend on what the files hold: where paths are found, how they
are spelled, and which nodes are sources of others. Main statements: every change that a session
makes leaves a graph in order, and every node at its path.
-/

set_option autoImplicit false

namespace MapChain

variable {graph later : Graph} {id : NodeId} {sources : List NodeId} {path : Option Path}

namespace Graph

def Denotes (graph : Graph) (id : NodeId) (path : Option Path) : Prop :=
  ∃ node, graph.node? id = some node ∧ node.path = path

def Lists (graph : Graph) (parent : NodeId) (position : Nat) (child : NodeId) : Prop :=
  ∃ node, graph.node? parent = some node ∧ node.sources[position]? = some child

def Settled (graph : Graph) : Prop :=
  ∀ id path, graph.Denotes id (some path) → path.IsSettled

structure Orderly (graph : Graph) : Prop where
  indexed : graph.Indexed
  settled : graph.Settled
  valid : ∀ parent position child, graph.Lists parent position child →
    ∃ path, graph.Denotes child path
  once : ∀ child, graph.Denotes child none → ∀ parent position other place,
    graph.Lists parent position child → graph.Lists other place child →
      parent = other ∧ position = place

theorem Denotes.unique {other : Option Path} (first : graph.Denotes id path)
    (second : graph.Denotes id other) : path = other := by
  obtain ⟨node, present, rfl⟩ := first
  obtain ⟨same, there, rfl⟩ := second
  rw [present] at there
  cases there
  rfl

theorem denotes_of_lt (inside : id < graph.size) : ∃ path, graph.Denotes id path :=
  ⟨_, _, Array.getElem?_eq_getElem inside, rfl⟩

theorem Denotes.lt_size (denotes : graph.Denotes id path) : id < graph.size := by
  obtain ⟨node, present, -⟩ := denotes
  exact lt_size_of_node present

theorem Indexed.found (indexed : graph.Indexed) (path : Path) (id : NodeId) :
    graph.lookup path = some id ↔
      ∃ own, graph.Denotes id (some own) ∧ Path.Same own path := by
  rw [indexed path id]
  constructor
  · rintro ⟨node, present, there⟩
    obtain ⟨own, named, same⟩ := (Option.any_eq_true _ _).1 there
    exact ⟨own, ⟨node, present, named⟩, of_decide_eq_true same⟩
  · rintro ⟨own, ⟨node, present, named⟩, same⟩
    refine ⟨node, present, ?_⟩
    rw [Node.isAt, named]
    exact decide_eq_true same

theorem Indexed.apart {other : NodeId} {own : Path} (indexed : graph.Indexed)
    (first : graph.Denotes id (some own)) (second : graph.Denotes other (some own)) :
    id = other := by
  have here := (indexed.found own id).2 ⟨own, first, rfl⟩
  rw [(indexed.found own other).2 ⟨own, second, rfl⟩] at here
  cases here
  rfl

structure Keeps (graph later : Graph) : Prop where
  denotes : ∀ id path, graph.Denotes id path → later.Denotes id path
  lists : ∀ parent position child, later.Lists parent position child →
    graph.Lists parent position child

theorem Grows.keeps (grows : graph.Grows later) : graph.Keeps later where
  denotes := by
    rintro id path ⟨node, present, named⟩
    obtain ⟨new, there, persists⟩ := grows.persists id node present
    exact ⟨new, there, persists.path.trans named⟩
  lists := by
    rintro parent position child ⟨new, there, found⟩
    cases before : graph.node? parent with
    | none =>
        rw [(grows.arrives parent new there before).2] at found
        cases found
    | some node =>
        obtain ⟨same, present, persists⟩ := grows.persists parent node before
        rw [there] at present
        cases present
        rw [persists.sources] at found
        exact ⟨node, before, found⟩

theorem Keeps.size_le (keeps : graph.Keeps later) : graph.size ≤ later.size := by
  by_contra fewer
  obtain ⟨path, denotes⟩ := denotes_of_lt (Nat.lt_of_not_le fewer)
  exact absurd (keeps.denotes _ _ denotes).lt_size (Nat.lt_irrefl _)

theorem denotes_modify_iff {change : Node → Node} (named : ∀ node, (change node).path = node.path)
    (other : NodeId) : (graph.modify id change).Denotes other path ↔ graph.Denotes other path := by
  by_cases same : other = id
  · rw [same, Denotes, Denotes, node_modify_self]
    constructor
    · rintro ⟨new, present, shown⟩
      obtain ⟨node, there, rfl⟩ := Option.map_eq_some_iff.1 present
      exact ⟨node, there, (named node).symm.trans shown⟩
    · rintro ⟨node, present, shown⟩
      rw [present]
      exact ⟨change node, rfl, (named node).trans shown⟩
  · rw [Denotes, Denotes, node_modify_of_ne graph change same]

theorem keeps_modify {change : Node → Node} (named : ∀ node, (change node).path = node.path)
    (bare : ∀ node, (change node).sources = node.sources) :
    graph.Keeps (graph.modify id change) where
  denotes := fun other path denotes => (denotes_modify_iff named other).2 denotes
  lists := by
    rintro parent position child ⟨new, present, found⟩
    rcases node_modify_cases present with ⟨-, before⟩ | ⟨rfl, node, before, rfl⟩
    · exact ⟨new, before, found⟩
    · rw [bare] at found
      exact ⟨node, before, found⟩

theorem Settled.modify {change : Node → Node} (settled : graph.Settled)
    (named : ∀ node, (change node).path = node.path) : (graph.modify id change).Settled :=
  fun other path denotes => settled other path ((denotes_modify_iff named other).1 denotes)

theorem Settled.push {node : Node} (settled : graph.Settled)
    (given : ∀ own, node.path = some own → own.IsSettled) : (graph.push node).Settled := by
  rintro other path ⟨new, present, named⟩
  rcases node_push_cases present with ⟨-, rfl⟩ | before
  · exact given path named
  · exact settled other path ⟨new, before, named⟩

theorem Settled.attach (settled : graph.Settled) (content : Option String)
    (given : ∀ own, path = some own → own.IsSettled) :
    (graph.attach path content).1.Settled := by
  have ways := attached graph path content
  generalize graph.attach path content = result at ways ⊢
  cases ways with
  | nameless => exact settled.push (by simp [Node.fresh])
  | added absent => exact settled.push given
  | known found =>
      apply settled.modify
      intro node
      rcases node.offer_eq content with same | ⟨-, taken⟩
      · rw [same]
      · rw [taken]

theorem Orderly.keep (orderly : graph.Orderly) (keeps : graph.Keeps later)
    (indexed : later.Indexed) (settled : later.Settled) : later.Orderly where
  indexed := indexed
  settled := settled
  valid := by
    intro parent position child listed
    obtain ⟨path, denotes⟩ :=
      orderly.valid parent position child (keeps.lists parent position child listed)
    exact ⟨path, keeps.denotes child path denotes⟩
  once := by
    intro child nameless parent position other place first second
    have before := keeps.lists parent position child first
    obtain ⟨path, denotes⟩ := orderly.valid parent position child before
    have same : path = none := (keeps.denotes child path denotes).unique nameless
    rw [same] at denotes
    exact orderly.once child denotes parent position other place before
      (keeps.lists other place child second)

theorem denotes_equip_iff (map : SourceMap) (mappings : Mappings) (other : NodeId) :
    (graph.equip id map mappings sources).Denotes other path ↔ graph.Denotes other path := by
  apply denotes_modify_iff
  exact fun _ => rfl

theorem lists_equip {map : SourceMap} {mappings : Mappings} {parent child : NodeId}
    {position : Nat} (listed : (graph.equip id map mappings sources).Lists parent position child) :
    parent = id ∧ sources[position]? = some child ∨ graph.Lists parent position child := by
  obtain ⟨new, present, found⟩ := listed
  rcases node_modify_cases present with ⟨-, before⟩ | ⟨rfl, node, before, rfl⟩
  · exact Or.inr ⟨new, before, found⟩
  · exact Or.inl ⟨rfl, found⟩

/-- Sources may be given to a node where those without a path are nobody's sources so far. -/
theorem Orderly.equip (orderly : graph.Orderly) (map : SourceMap) (mappings : Mappings)
    (valid : ∀ child ∈ sources, ∃ path, graph.Denotes child path)
    (fresh : ∀ child ∈ sources, graph.Denotes child none →
      ∀ parent position, ¬graph.Lists parent position child)
    (apart : sources.Pairwise fun child other => graph.Denotes other none → child ≠ other) :
    (graph.equip id map mappings sources).Orderly where
  indexed := indexed_modify orderly.indexed fun _ => rfl
  settled := orderly.settled.modify fun _ => rfl
  valid := by
    intro parent position child listed
    have there : ∃ path, graph.Denotes child path := by
      rcases lists_equip listed with ⟨-, found⟩ | before
      · exact valid child (List.mem_of_getElem? found)
      · exact orderly.valid parent position child before
    obtain ⟨path, denotes⟩ := there
    exact ⟨path, (denotes_equip_iff map mappings child).2 denotes⟩
  once := by
    intro child denotes parent position other place first second
    have nameless := (denotes_equip_iff map mappings child).1 denotes
    have never {low high : Nat} (less : low < high) (found : sources[low]? = some child)
        (again : sources[high]? = some child) : False := by
      obtain ⟨inside, same⟩ := List.getElem?_eq_some_iff.1 found
      obtain ⟨within, equal⟩ := List.getElem?_eq_some_iff.1 again
      have distinct := List.pairwise_iff_getElem.1 apart low high inside within less
      rw [same, equal] at distinct
      exact distinct nameless rfl
    rcases lists_equip first with ⟨here, found⟩ | before
    · have new := fresh child (List.mem_of_getElem? found) nameless
      rcases lists_equip second with ⟨there, again⟩ | after
      · refine ⟨here.trans there.symm, ?_⟩
        rcases Nat.lt_trichotomy position place with less | same | more
        · exact (never less found again).elim
        · exact same
        · exact (never more again found).elim
      · exact absurd after (new other place)
    · rcases lists_equip second with ⟨-, again⟩ | after
      · exact absurd before (fresh child (List.mem_of_getElem? again) nameless parent position)
      · exact orderly.once child nameless parent position other place before after

end Graph

namespace Session

variable {child : Child} {children : List Child}

theorem settled_attach_child (settled : graph.Settled)
    (given : ∀ own, child.path = some own → own.IsSettled) :
    (attachChild graph child).1.Settled := by
  have attached := settled.attach child.content given
  unfold attachChild
  dsimp only
  split
  · exact attached.modify fun _ => rfl
  · exact attached

theorem settled_attach_children (settled : graph.Settled)
    (given : ∀ child ∈ children, ∀ own, child.path = some own → own.IsSettled) :
    (attachChildren graph children).1.Settled := by
  induction children generalizing graph with
  | nil => exact settled
  | cons child children induction =>
      rw [List.forall_mem_cons] at given
      exact induction (settled_attach_child settled given.1) given.2

theorem denotes_attach_child (indexed : graph.Indexed) (child : Child) :
    (∃ path, (attachChild graph child).1.Denotes (attachChild graph child).2.1 path) ∧
      ((attachChild graph child).1.Denotes (attachChild graph child).2.1 none →
        graph.size ≤ (attachChild graph child).2.1) := by
  obtain ⟨node, present, -, fits⟩ := plays_attach_child indexed child []
  refine ⟨⟨node.path, node, present, rfl⟩, ?_⟩
  intro nameless
  cases named : child.path with
  | none =>
      unfold attachChild
      rw [named]
      exact Nat.le_refl graph.size
  | some own =>
      rw [Node.fits_named named] at fits
      have bare : node.path = none := Graph.Denotes.unique ⟨node, present, rfl⟩ nameless
      simp [Node.isAt, bare] at fits

/-- Every source without a path is a new node, and follows all nodes that were there before it. -/
theorem denotes_attach_children (indexed : graph.Indexed) (children : List Child) :
    (∀ id ∈ (attachChildren graph children).2.1,
        (∃ path, (attachChildren graph children).1.Denotes id path) ∧
          ((attachChildren graph children).1.Denotes id none → graph.size ≤ id)) ∧
      (attachChildren graph children).2.1.Pairwise fun id other =>
        (attachChildren graph children).1.Denotes other none → id ≠ other := by
  induction children generalizing graph with
  | nil => exact ⟨by simp [attachChildren], .nil⟩
  | cons child children induction =>
      have still := indexed_attach_child indexed child
      have growing := (grows_attach_child indexed child).keeps
      have keeps := (grows_attach_children still children).keeps
      obtain ⟨⟨path, denotes⟩, fresh⟩ := denotes_attach_child indexed child
      obtain ⟨known, apart⟩ := induction still
      have kept := keeps.denotes _ path denotes
      -- The first source is there before the others are attached, so new ones lie beyond it.
      refine ⟨?_, ?_⟩
      · intro id member
        rcases List.mem_cons.1 member with rfl | inside
        · refine ⟨⟨path, kept⟩, ?_⟩
          intro nameless
          rw [kept.unique nameless] at denotes
          exact fresh denotes
        · obtain ⟨there, new⟩ := known id inside
          exact ⟨there, fun nameless => growing.size_le.trans (new nameless)⟩
      · refine .cons ?_ apart
        intro other inside nameless same
        have after := (known other inside).2 nameless
        rw [← same] at after
        exact absurd denotes.lt_size (Nat.not_lt_of_le after)

end Session

namespace Graph

/-- The changes that a session makes: a node is attached, a node changes neither its path nor its
sources, or a node is given sources that are attached for it. -/
inductive Step (graph : Graph) : Graph → Prop where
  | attach (path : Option Path) (content : Option String)
      (settled : ∀ own, path = some own → own.IsSettled) : Step graph (graph.attach path content).1
  | alter (id : NodeId) (change : Node → Node) (path : ∀ node, (change node).path = node.path)
      (sources : ∀ node, (change node).sources = node.sources) :
      Step graph (graph.modify id change)
  | resolve (id : NodeId) (map : SourceMap) (mappings : Mappings) (children : List Child)
      (settled : ∀ child ∈ children, ∀ own, child.path = some own → own.IsSettled) :
      Step graph ((Session.attachChildren graph children).1.equip id map mappings
        (Session.attachChildren graph children).2.1)

theorem Orderly.step (orderly : graph.Orderly) (step : graph.Step later) :
    later.Orderly ∧ ∀ id path, graph.Denotes id path → later.Denotes id path := by
  cases step with
  | attach path content given =>
      have keeps := (grows_attach orderly.indexed path content).keeps
      have indexed := indexed_attach orderly.indexed path content
      exact ⟨orderly.keep keeps indexed (orderly.settled.attach content given), keeps.denotes⟩
  | alter id change named bare =>
      have keeps : graph.Keeps (graph.modify id change) := keeps_modify named bare
      have indexed : (graph.modify id change).Indexed := indexed_modify orderly.indexed named
      exact ⟨orderly.keep keeps indexed (orderly.settled.modify named), keeps.denotes⟩
  | resolve id map mappings children given =>
      have keeps := (Session.grows_attach_children orderly.indexed children).keeps
      have indexed := Session.indexed_attach_children orderly.indexed children
      have settled := Session.settled_attach_children orderly.settled given
      obtain ⟨known, apart⟩ := Session.denotes_attach_children orderly.indexed children
      have attached := orderly.keep keeps indexed settled
      refine ⟨attached.equip map mappings (fun child member => (known child member).1) ?_ apart, ?_⟩
      -- What is listed so far was there before, and what has no path is new.
      · intro child member nameless parent position listed
        obtain ⟨path, denotes⟩ :=
          orderly.valid parent position child (keeps.lists parent position child listed)
        exact absurd denotes.lt_size (Nat.not_lt_of_le ((known child member).2 nameless))
      · intro other path denotes
        exact (denotes_equip_iff map mappings other).2 (keeps.denotes other path denotes)

theorem Orderly.steps (orderly : graph.Orderly)
    (steps : Relation.ReflTransGen Step graph later) :
    later.Orderly ∧ ∀ id path, graph.Denotes id path → later.Denotes id path := by
  induction steps with
  | refl => exact ⟨orderly, fun id path denotes => denotes⟩
  | tail earlier step induction =>
      obtain ⟨between, kept⟩ := induction
      obtain ⟨after, keeps⟩ := between.step step
      exact ⟨after, fun id path denotes => keeps id path (kept id path denotes)⟩

theorem orderly_empty : empty.Orderly := by
  have absent (id : NodeId) (path : Option Path) : ¬empty.Denotes id path := by
    rintro ⟨node, present, -⟩
    simp [empty, node?] at present
  have bare (parent position child : Nat) : ¬empty.Lists parent position child := by
    rintro ⟨node, present, -⟩
    simp [empty, node?] at present
  exact ⟨indexed_empty, fun id path denotes => absurd denotes (absent id _),
    fun parent position child listed => absurd listed (bare parent position child),
    fun child denotes => absurd denotes (absent child none)⟩

end Graph

end MapChain
