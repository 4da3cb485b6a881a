import MapChain.Proofs.Session.Asking
import MapChain.Proofs.Session.Room

/-!
Waves that read nothing more. The nodes of a quiet wave know their contents only: those with a path
have none, and every other content weighs less than some bound. Main statements: a wave that leaves
as much room as there was is followed by a quiet one, what a quiet wave carries on is lighter, and
so a run that asks for no content again and again, nor at ever new paths, comes to an end.
-/

set_option autoImplicit false

namespace MapChain

variable {files : FileSystem} {paths : List Path}

namespace Session

variable {session later : Session} {wave next : List NodeId} {bound : Nat}

/-- A run asks for no content without a path that leads back to itself, and for other content only
where there is something to read or at finitely many paths. -/
structure Tame (files : FileSystem) (paths : List Path) (session : Session) (wave : List NodeId) :
    Prop where
  straight : ∀ request text, session.Asks files wave request → request.path = none →
    request.map = none → request.content = some text →
      ¬files.Returns session.directory session.roots text
  near : ∀ request path, session.Asks files wave request → request.Plain files →
    request.path = some path → request.content ≠ none → ∃ own ∈ paths, Path.Same own path

theorem exists_tame (straight : ¬session.Recurs files wave) (near : ¬session.Wanders files wave) :
    ∃ paths, session.Tame files paths wave := by
  obtain ⟨paths, listed⟩ := not_forall.1 near
  refine ⟨paths, ?_, ?_⟩
  · intro request text asks nameless bare known returns
    exact straight ⟨request, text, asks, nameless, bare, known, returns⟩
  · intro request path asks plain named filled
    by_contra apart
    push Not at apart
    exact listed ⟨request, path, asks, plain, named, filled, apart⟩

theorem Tame.onward (tame : session.Tame files paths wave) (indexed : session.graph.Indexed)
    (advanced : advanceConcurrent files (session.beginWave wave).1
      (session.beginWave wave).2 = (later, .ok next)) : later.Tame files paths next := by
  have passes := passes_freely files indexed wave
  rw [advanced] at passes
  constructor
  · intro request text asks
    rw [passes.unmoved, passes.rooted]
    exact tame.straight request text (asks_later advanced asks)
  · intro request path asks
    exact tame.near request path (asks_later advanced asks)

/-- A node of a wave that has nothing to read. What it carries on is light if it has no path, and
nothing if it has one. -/
structure Idle (files : FileSystem) (bound : Nat) (session : Session) (request : Request) :
    Prop where
  plain : request.Plain files
  nameless : ∀ text, request.content = some text → request.path = none
  light : ∀ text, request.content = some text →
    files.weight session.directory session.roots text < bound

def Quiet (files : FileSystem) (bound : Nat) (session : Session) (wave : List NodeId) : Prop :=
  ∀ request ∈ (session.beginWave wave).2, session.Idle files bound request

theorem nil_of_childless_fetch {fetched : Fetched} {pending : List NodeId}
    (childless : fetched.children = []) (folded : (session.integrate fetched).2 = .ok pending) :
    pending = [] := by
  cases present : session.graph.node? fetched.id with
  | none =>
      simp only [integrate, present] at folded
      cases folded
      rfl
  | some node =>
      rcases integrate_cases session present with
        ⟨-, same⟩ | ⟨map, fault, -, -, same⟩ | ⟨map, lines, -, -, same⟩
      · rw [same] at folded
        cases folded
        rfl
      · rw [same] at folded
        cases folded
      · rw [same, childless] at folded
        cases folded
        rfl

theorem nil_of_childless {results : List (Except Fault Fetched)} {next : List NodeId}
    (childless : ∀ fetched, .ok fetched ∈ results → fetched.children = [])
    (completed : (session.integrateAll results).2 = .ok next) : next = [] := by
  induction results generalizing session next with
  | nil =>
      cases completed
      rfl
  | cons result results induction =>
      cases result with
      | error fault => cases completed
      | ok fetched =>
          have nothing (pending : List NodeId)
              (folded : (session.integrate fetched).2 = .ok pending) :=
            nil_of_childless_fetch (childless fetched List.mem_cons_self) folded
          simp only [integrateAll] at completed
          generalize session.integrate fetched = integrated at nothing completed
          obtain ⟨between, fault | pending⟩ := integrated
          · cases completed
          · obtain ⟨last, ended, rfl⟩ := of_collect completed
            rw [nothing pending rfl, List.nil_append]
            exact induction
              (fun other member => childless other (List.mem_cons_of_mem _ member)) ended

theorem Quiet.last (quiet : session.Quiet files 0 wave)
    (completed : (advanceConcurrent files (session.beginWave wave).1
      (session.beginWave wave).2).2 = .ok next) : next = [] := by
  rw [advance_concurrent_eq] at completed
  refine nil_of_childless ?_ completed
  intro fetched member
  obtain ⟨request, inside, answered⟩ := List.mem_map.1 member
  have idle := quiet request inside
  apply idle.plain.childless ?_ answered
  cases known : request.content with
  | none => rfl
  | some text => exact absurd (idle.light text known) (Nat.not_lt_zero _)

def Stems (files : FileSystem) (bound : Nat) (session : Session) (named : Bool) (content : String) :
    Prop :=
  named = false → ∃ text, files.weight session.directory session.roots text < bound ∧
    files.Leads session.directory session.roots text content

theorem Quiet.stems (quiet : session.Quiet files bound wave) :
    ∀ request ∈ (session.beginWave wave).2, ∀ fetched,
      request.fetch files session.directory session.roots = .ok fetched →
        ∀ child ∈ fetched.children, ∀ content, child.content = some content →
          session.Stems files bound child.path.isSome content := by
  intro request inside fetched answered child member content carried named
  have idle := quiet request inside
  obtain ⟨path, held⟩ := child
  cases path with
  | some own => cases named
  | none =>
      obtain rfl : held = some content := carried
      cases known : request.content with
      | none =>
          rw [idle.plain.childless known answered] at member
          cases member
      | some text =>
          obtain ⟨own, same, leads⟩ :=
            idle.plain.leads (idle.nameless text known) answered member
          exact ⟨own, idle.light own same, leads⟩

/-- Where a wave leaves as much room as there was, the next one has nothing to read, and such
content as it has comes without a path. -/
theorem Passes.of_tame {given : Bool → String → Prop} {ended : Session × Except Fault (List NodeId)}
    (passes : session.Passes given wave ended)
    (roomy : session.graph.room files paths ≤ ended.1.graph.room files paths)
    (completed : ended.2 = .ok next) (tame : ended.1.Tame files paths next) {request : Request}
    (member : request ∈ (ended.1.beginWave next).2) :
    request.Plain files ∧ ∀ text, request.content = some text →
      request.path = none ∧ given false text ∧
        ¬files.Returns ended.1.directory ended.1.roots text := by
  have asks : ended.1.Asks files next request := asks_here member
  obtain ⟨inside, node, present, queued, same⟩ :=
    (hands_out_begin_wave ended.1 next).asked request member
  obtain ⟨arrives, elsewhere⟩ := passes.of_room roomy completed inside present queued
  have named : request.path = node.path := by rw [same, Node.ask]
  have known : request.content = node.content := by rw [same, Node.ask]
  have bare : request.map = none := by
    rw [same]
    exact arrives.map
  have plain : request.Plain files := by
    refine ⟨bare, ?_⟩
    intro path spelled
    by_contra readable
    obtain ⟨text, read⟩ := Option.ne_none_iff_exists'.1 readable
    exact elsewhere path (named.symm.trans spelled) (FileSystem.components_mem_places read)
  refine ⟨plain, ?_⟩
  intro text shown
  have nameless : request.path = none := by
    by_contra spelled
    obtain ⟨path, spelled⟩ := Option.ne_none_iff_exists'.1 spelled
    obtain ⟨own, listed, alike⟩ := tame.near request path asks plain spelled (by simp [shown])
    apply elsewhere path (named.symm.trans spelled)
    exact List.mem_append_right _ (List.mem_map.2 ⟨own, listed, alike⟩)
  have taken := arrives.content text (known.symm.trans shown)
  rw [← named, nameless] at taken
  exact ⟨nameless, taken, tame.straight request text asks nameless bare shown⟩

theorem Passes.exists_quiet {given : Bool → String → Prop}
    {ended : Session × Except Fault (List NodeId)} (passes : session.Passes given wave ended)
    (roomy : session.graph.room files paths ≤ ended.1.graph.room files paths)
    (completed : ended.2 = .ok next) (tame : ended.1.Tame files paths next) :
    ∃ bound, ended.1.Quiet files bound next := by
  refine ⟨(((ended.1.beginWave next).2.filterMap (·.content)).map
    (files.weight ended.1.directory ended.1.roots)).sum + 1, ?_⟩
  intro request member
  obtain ⟨plain, alone⟩ := passes.of_tame roomy completed tame member
  refine ⟨plain, fun text shown => (alone text shown).1, ?_⟩
  intro text shown
  have listed : text ∈ (ended.1.beginWave next).2.filterMap (·.content) :=
    List.mem_filterMap.2 ⟨request, member, shown⟩
  exact Nat.lt_succ_of_le (List.le_sum_of_mem (List.mem_map_of_mem listed))

/-- What light texts lead to is lighter still. -/
theorem Passes.quiet {ended : Session × Except Fault (List NodeId)}
    (passes : session.Passes (session.Stems files (bound + 1)) wave ended)
    (roomy : session.graph.room files paths ≤ ended.1.graph.room files paths)
    (completed : ended.2 = .ok next) (tame : ended.1.Tame files paths next) :
    ended.1.Quiet files bound next := by
  intro request member
  obtain ⟨plain, alone⟩ := passes.of_tame roomy completed tame member
  refine ⟨plain, fun text shown => (alone text shown).1, ?_⟩
  intro text shown
  obtain ⟨-, stems, straight⟩ := alone text shown
  obtain ⟨own, light, leads⟩ := stems rfl
  rw [passes.unmoved, passes.rooted] at straight ⊢
  exact Nat.lt_of_lt_of_le (FileSystem.weight_lt leads straight) (Nat.le_of_lt_succ light)

/-- A quiet run ends, given that all runs with less room do: its contents get lighter with each
wave. -/
theorem Quiet.ends {room : Nat} (smaller : ∀ (later : Session) next, later.graph.Indexed →
      later.Tame files paths next → later.graph.room files paths < room → later.Ends files next)
    (quiet : session.Quiet files bound wave) (indexed : session.graph.Indexed)
    (tame : session.Tame files paths wave) (narrow : session.graph.room files paths ≤ room) :
    session.Ends files wave := by
  induction bound generalizing session wave with
  | zero =>
      apply ends_of_wave rfl
      intro next completed
      rw [quiet.last completed]
      exact ends_nil files _
  | succ bound induction =>
      have passes := passes_wave indexed wave quiet.stems
      have onward {later : Session} {next : List NodeId} (advanced : advanceConcurrent files
          (session.beginWave wave).1 (session.beginWave wave).2 = (later, .ok next)) :
          later.Tame files paths next := tame.onward indexed advanced
      apply ends_of_wave rfl
      generalize advanceConcurrent files (session.beginWave wave).1
        (session.beginWave wave).2 = ended at passes onward ⊢
      intro next completed
      have tamer : ended.1.Tame files paths next := onward (Prod.ext rfl completed)
      rcases Nat.lt_or_ge (ended.1.graph.room files paths) room with less | roomy
      · exact smaller ended.1 next passes.indexed tamer less
      · exact induction (passes.quiet (Nat.le_trans narrow roomy) completed tamer) passes.indexed
          tamer (Nat.le_trans (passes.room_le files paths) narrow)

/-- Each wave takes some of the room, or is followed by a quiet one. -/
theorem Tame.ends (tame : session.Tame files paths wave) (indexed : session.graph.Indexed) :
    session.Ends files wave := by
  induction size : session.graph.room files paths using Nat.strong_induction_on
    generalizing session wave with
  | _ room induction =>
      have passes := passes_freely files indexed wave
      have onward {later : Session} {next : List NodeId} (advanced : advanceConcurrent files
          (session.beginWave wave).1 (session.beginWave wave).2 = (later, .ok next)) :
          later.Tame files paths next := tame.onward indexed advanced
      have smaller (later : Session) (next : List NodeId) (still : later.graph.Indexed)
          (tamer : later.Tame files paths next) (less : later.graph.room files paths < room) :
          later.Ends files next := induction _ less tamer still rfl
      apply ends_of_wave rfl
      generalize advanceConcurrent files (session.beginWave wave).1
        (session.beginWave wave).2 = ended at passes onward ⊢
      intro next completed
      have tamer : ended.1.Tame files paths next := onward (Prod.ext rfl completed)
      have narrow := passes.room_le files paths
      rcases Nat.lt_or_ge (ended.1.graph.room files paths) room with less | roomy
      · exact smaller ended.1 next passes.indexed tamer less
      · obtain ⟨bound, quiet⟩ := passes.exists_quiet (by rw [size]; exact roomy) completed tamer
        exact quiet.ends smaller passes.indexed tamer (by rw [← size]; exact narrow)

end Session

end MapChain
