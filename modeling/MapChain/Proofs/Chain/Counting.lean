import MapChain.Proofs.Chain.Emitting
import MapChain.Proofs.Chain.Flattening
import MapChain.Proofs.Chain.Manners

/-!
The count of untraceable segments through calls of all kinds. Only a call that traces the lines of
the root sets the count; a call that hands on the map as it is, yields no map or is refused leaves
it as it was. Main statement: after any calls the count is what the last call that traced has
dropped, so it speaks of the last call just where that call traced, or nothing had been dropped.
-/

set_option autoImplicit false

namespace MapChain

namespace Graph

variable {graph : Graph} {flatten : Flatten} {node : Node} {segment : Segment}

def strays (graph : Graph) (flatten : Flatten) (node : Node) (segment : Segment) : Bool :=
  segment.origin.any fun origin => (graph.traceOrigin flatten node origin).isNone

theorem strays_eq (segment : Segment) : graph.strays flatten node segment =
    (segment.origin.isSome && (graph.traceSegment flatten node segment).isNone) := by
  unfold strays traceSegment
  cases segment.origin with
  | none => rfl
  | some origin => cases found : graph.traceOrigin flatten node origin <;> simp [found]

theorem count_trace_line (line : Line) :
    (graph.traceLine flatten node line).countP (·.isNone) =
      line.countP (graph.strays flatten node) := by
  rw [traceLine, List.countP_map, List.countP_filter]
  apply List.countP_congr
  intro segment _
  rw [strays_eq, Bool.and_comm]
  rfl

theorem untraceable_trace_lines (lines : Mappings) :
    (graph.traceLines flatten node lines).untraceable =
      (lines.map (·.countP (graph.strays flatten node))).sum := by
  show ((lines.map (graph.traceLine flatten node)).flatten.countP (·.isNone)) = _
  rw [List.countP_flatten, List.map_map]
  congr 1
  apply List.map_congr_left
  intro line _
  exact count_trace_line line

end Graph

namespace Chain

/-- What may be asked of a chain again and again. A text is written over the files as they are at
that time. -/
inductive Task where
  | apply (options : Options)
  | emit (target : Option Path) (options : Options)
  | write (device : Device) (files : FileSystem) (target : Option Path) (options : Options)
  | writeConcurrent (device : Device) (files : FileSystem) (target : Option Path)
      (options : Options)

def perform (chain : Chain) : Task → Chain
  | .apply options => (chain.apply options).1
  | .emit target options => (chain.emit target options).1
  | .write device files target options => (chain.writeOn device files target options).1
  | .writeConcurrent device files target options =>
      (chain.writeConcurrentOn device files target options).1

def performAll (chain : Chain) (tasks : List Task) : Chain := tasks.foldl perform chain

/-- How many mapped segments of the root are dropped when its lines are traced under a policy, if
they are traced at all. -/
def dropped? (chain : Chain) (flatten : Flatten) : Option Nat :=
  if flatten = .off then none
  else
    (chain.flattenable? flatten).map fun (node, _, lines) =>
      (lines.map (·.countP (chain.graph.strays flatten node))).sum

/-- What a call drops. Without a place for its text it is refused before anything is traced. -/
def lost? (chain : Chain) : Task → Option Nat
  | .apply options => chain.dropped? options.flatten
  | .emit target options | .write _ _ target options | .writeConcurrent _ _ target options =>
      (target.or chain.rootPath?).bind fun _ => chain.dropped? options.flatten

variable {chain : Chain} {task : Task}

theorem untraceable_apply (chain : Chain) (options : Options) :
    (chain.apply options).1.untraceable =
      (chain.dropped? options.flatten).getD chain.untraceable := by
  unfold apply dropped?
  cases chain.flattenable? options.flatten with
  | none => simp
  | some root =>
      by_cases off : options.flatten = .off
      · simp [off]
      · simp [off, Graph.untraceable_trace_lines]

theorem emit_eq (chain : Chain) (target : Option Path) (options : Options) :
    (chain.emit target options).1 = chain ∧ target.or chain.rootPath? = none ∨
      ∃ file base, target.or chain.rootPath? = some file ∧
        (chain.emit target options).1 = (chain.apply { options with base := base }).1 := by
  unfold emit
  cases found : target.or chain.rootPath? with
  | none => exact Or.inl ⟨rfl, rfl⟩
  | some file => exact Or.inr ⟨file, _, rfl, rfl⟩

theorem untraceable_emit (chain : Chain) (target : Option Path) (options : Options) :
    (chain.emit target options).1.untraceable =
      (chain.lost? (.emit target options)).getD chain.untraceable := by
  rw [lost?]
  cases chain.emit_eq target options with
  | inl refused => rw [refused.1, refused.2, Option.bind_none, Option.getD_none]
  | inr placed =>
      obtain ⟨file, base, found, same⟩ := placed
      rw [same, found, Option.bind_some, untraceable_apply]

theorem write_on_fst (device : Device) (chain : Chain) (files : FileSystem)
    (target : Option Path) (options : Options) :
    (chain.writeOn device files target options).1 = (chain.emit target options).1 := by
  unfold writeOn
  split
  next emitted => rw [emitted]
  next emitted =>
    rw [emitted]
    dsimp only
    split <;> rfl

/-- One call sets the count to what it drops, or leaves it. -/
theorem untraceable_perform (chain : Chain) (task : Task) :
    (chain.perform task).untraceable = (chain.lost? task).getD chain.untraceable := by
  cases task with
  | apply options => exact chain.untraceable_apply options
  | emit target options => exact chain.untraceable_emit target options
  | write device files target options =>
      rw [perform, write_on_fst]
      exact chain.untraceable_emit target options
  | writeConcurrent device files target options =>
      rw [perform, write_concurrent_on_eq, write_on_fst]
      exact chain.untraceable_emit target options

theorem perform_eq (chain : Chain) (task : Task) :
    ∃ count, chain.perform task = { chain with untraceable := count } := by
  have emitted (target : Option Path) (options : Options) :
      ∃ count, (chain.emit target options).1 = { chain with untraceable := count } := by
    cases chain.emit_eq target options with
    | inl refused => exact ⟨chain.untraceable, refused.1⟩
    | inr placed =>
        obtain ⟨file, base, -, same⟩ := placed
        rw [same]
        exact chain.apply_eq _
  cases task with
  | apply options => exact chain.apply_eq options
  | emit target options => exact emitted target options
  | write device files target options =>
      rw [perform, write_on_fst]
      exact emitted target options
  | writeConcurrent device files target options =>
      rw [perform, write_concurrent_on_eq, write_on_fst]
      exact emitted target options

theorem lost_perform (chain : Chain) (earlier : Task) :
    (chain.perform earlier).lost? = chain.lost? := by
  obtain ⟨count, same⟩ := chain.perform_eq earlier
  rw [same]
  rfl

theorem untraceable_perform_all (chain : Chain) (tasks : List Task) :
    (chain.performAll tasks).untraceable =
      (tasks.filterMap chain.lost?).getLast?.getD chain.untraceable := by
  induction tasks generalizing chain with
  | nil => rfl
  | cons task tasks induction =>
      have rest := induction (chain.perform task)
      rw [lost_perform, untraceable_perform] at rest
      rw [performAll, List.foldl_cons]
      refine rest.trans ?_
      cases lost : chain.lost? task with
      | none => rw [List.filterMap_cons_none lost, Option.getD_none]
      | some count =>
          rw [List.filterMap_cons_some lost, List.getLast?_cons, Option.getD_some,
            Option.getD_some]

theorem lost_perform_all (chain : Chain) (tasks : List Task) :
    (chain.performAll tasks).lost? = chain.lost? := by
  induction tasks generalizing chain with
  | nil => rfl
  | cons task tasks induction =>
      rw [performAll, List.foldl_cons]
      exact (induction (chain.perform task)).trans (chain.lost_perform task)

/-- After any calls the count is that of the last one that traced. It is what the very last one has
dropped just where that one traced, or the count was none before. -/
theorem count_is_of_last_traced (chain : Chain) (before : List Task) (task : Task) :
    (chain.performAll (before ++ [task])).untraceable =
        ((before ++ [task]).filterMap chain.lost?).getLast?.getD chain.untraceable ∧
      ((chain.performAll (before ++ [task])).untraceable = (chain.lost? task).getD 0 ↔
        (chain.lost? task).isSome = true ∨
          (before.filterMap chain.lost?).getLast?.getD chain.untraceable = 0) := by
  refine ⟨chain.untraceable_perform_all _, ?_⟩
  have last : (chain.performAll (before ++ [task])).untraceable =
      (chain.lost? task).getD (chain.performAll before).untraceable := by
    rw [performAll, List.foldl_append, List.foldl_cons, List.foldl_nil, untraceable_perform]
    exact congrFun (chain.lost_perform_all before) task ▸ rfl
  rw [last, ← untraceable_perform_all]
  cases chain.lost? task with
  | none => simp
  | some count => simp

/-- The count of one call stays through the next one, which hands on the map as it is. -/
theorem stale_count_stays :
    threeFiles.untraceable = 0 ∧
      threeFiles.lost? (.apply {}) = some 1 ∧
      threeFiles.lost? (.apply { flatten := .off }) = none ∧
      ((threeFiles.perform (.apply {})).apply { flatten := .off }).2.isSome = true ∧
      (threeFiles.performAll [.apply {}, .apply { flatten := .off }]).untraceable = 1 ∧
      ¬∀ (chain : Chain) (before : List Task) (task : Task), chain.untraceable = 0 →
        (chain.performAll (before ++ [task])).untraceable = (chain.lost? task).getD 0 := by
  have stays :
      (threeFiles.performAll [.apply {}, .apply { flatten := .off }]).untraceable = 1 := by decide
  refine ⟨rfl, by decide, by decide, by decide, stays, ?_⟩
  intro latest
  have none := latest threeFiles [.apply {}] (.apply { flatten := .off }) rfl
  rw [List.singleton_append, stays] at none
  exact absurd none (by decide)

end Chain

end MapChain
