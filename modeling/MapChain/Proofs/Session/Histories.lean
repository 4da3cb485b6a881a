import MapChain.Proofs.Session.Calls

/-!
Histories of a session: calls one after the other, where the files may have changed between two of
them, and what is seen of the waves of their loads. Main statement: what each wave keeps, together
with what has been seen of it, is kept by the waves of a load.
-/

set_option autoImplicit false

namespace MapChain

/-- A call, the files as they are at that time, and the number of waves that are allowed. -/
structure Turn where
  files : FileSystem
  waves : Nat
  call : Call

def Manner.advance (manner : Manner) (files : FileSystem) :
    Session → List Request → Session × Except Fault (List NodeId) :=
  match manner with
  | .blocking => Session.advanceBlocking files
  | .concurrent schedule => Session.advanceScheduled schedule files

theorem Manner.advance_eq (manner : Manner) (files : FileSystem) :
    manner.advance files = Session.advanceConcurrent files := by
  funext session requests
  rw [Session.advance_concurrent_eq]
  cases manner with
  | blocking => exact Session.advance_blocking_eq files session requests
  | concurrent schedule => exact Session.advance_scheduled_eq schedule files session requests

namespace Session

variable {Sight : Type} {session : Session}

def play (session : Session) (turn : Turn) : Session × Answer :=
  session.call turn.files turn.waves turn.call

def playAll (session : Session) : List Turn → Session × List Answer
  | [] => (session, [])
  | turn :: turns =>
      let (session, answer) := session.play turn
      let (session, answers) := playAll session turns
      (session, answer :: answers)

def watchWaves (advance : Session → List Request → Session × Except Fault (List NodeId))
    (watch : Session → List Request → List Sight) : Nat → Session → List NodeId → List Sight
  | _, _, [] => []
  | 0, _, _ => []
  | waves + 1, session, wave =>
      let (session, requests) := session.beginWave wave
      watch session requests ++
        match advance session requests with
        | (_, .error _) => []
        | (session, .ok next) => watchWaves advance watch waves session next

def watch (sights : FileSystem → Manner → Session → List Request → List Sight) (session : Session)
    (turn : Turn) : List Sight :=
  match turn.call with
  | .load manner root =>
      let (session, wave) := session.enqueue root
      watchWaves (manner.advance turn.files) (sights turn.files manner) turn.waves session wave
  | _ => []

def watchAll (sights : FileSystem → Manner → Session → List Request → List Sight)
    (session : Session) : List Turn → List Sight
  | [] => []
  | turn :: turns => session.watch sights turn ++ watchAll sights (session.play turn).1 turns

theorem play_all_append (session : Session) (early late : List Turn) :
    (session.playAll (early ++ late)).1 = ((session.playAll early).1.playAll late).1 := by
  induction early generalizing session with
  | nil => rfl
  | cons turn early induction => exact induction (session.play turn).1

theorem follows_of_play_all (session : Session) (turns : List Turn) :
    Relation.ReflTransGen Follows session (session.playAll turns).1 := by
  induction turns generalizing session with
  | nil => exact .refl
  | cons turn turns induction =>
      exact .head ⟨turn.files, turn.waves, turn.call, rfl⟩ (induction (session.play turn).1)

theorem play_load (session : Session) (files : FileSystem) (waves : Nat) (manner : Manner)
    (root : NodeId) :
    session.play ⟨files, waves, .load manner root⟩ =
      ((runWaves (manner.advance files) waves (session.enqueue root).1
          (session.enqueue root).2).1,
        .outcome (runWaves (manner.advance files) waves (session.enqueue root).1
          (session.enqueue root).2).2) := by
  rw [play, call_load, load_blocking_eq, manner.advance_eq]

/-- What holds of a session and of all that has been seen holds after a load, if each wave keeps
it. -/
theorem watch_waves_keeps (kept : Session → List Sight → Prop)
    (advance : Session → List Request → Session × Except Fault (List NodeId))
    (watch : Session → List Request → List Sight)
    (advances : ∀ (session : Session) seen wave, kept session seen →
      kept (advance (session.beginWave wave).1 (session.beginWave wave).2).1
        (seen ++ watch (session.beginWave wave).1 (session.beginWave wave).2))
    (waves : Nat) (wave : List NodeId) {seen : List Sight} (holds : kept session seen) :
    kept (runWaves advance waves session wave).1
      (seen ++ watchWaves advance watch waves session wave) := by
  have idle : kept session (seen ++ []) := by
    rw [List.append_nil]
    exact holds
  induction waves generalizing session seen wave with
  | zero => cases wave <;> exact idle
  | succ waves induction =>
      cases wave with
      | nil => exact idle
      | cons id wave =>
          have advanced := advances session seen (id :: wave) holds
          simp only [runWaves, watchWaves]
          generalize session.beginWave (id :: wave) = begun at advanced ⊢
          obtain ⟨between, requests⟩ := begun
          dsimp only at advanced ⊢
          generalize advance between requests = ended at advanced ⊢
          obtain ⟨last, fault | next⟩ := ended
          · dsimp only
            rw [List.append_nil]
            exact advanced
          · dsimp only
            rw [← List.append_assoc]
            apply induction next advanced
            rw [List.append_nil]
            exact advanced

end Session

end MapChain
