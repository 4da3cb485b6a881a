import MapChain.Session.Load

/-!
What a caller may ask of a session, and what the session answers.
-/

set_option autoImplicit false

namespace MapChain

/-- How a load reads its files: one node after the other, or those of a wave side by side. -/
inductive Manner where
  | blocking
  | concurrent (schedule : Session.Schedule)

inductive Call where
  | addRoot (file : Path)
  | addContent (file : Option Path) (content : String)
  | load (manner : Manner) (root : NodeId)

inductive Answer where
  | node (id : NodeId)
  | outcome (outcome : LoadOutcome)
  | refused (fault : Fault)
  deriving DecidableEq, Repr

namespace Session

/-- Answers one call. A call that is refused changes nothing. -/
def call (files : FileSystem) (waves : Nat) (session : Session) : Call → Session × Answer
  | .addRoot file =>
      let (session, id) := session.addRoot file
      (session, .node id)
  | .addContent file content =>
      match session.addContent file content with
      | .ok (session, id) => (session, .node id)
      | .error fault => (session, .refused fault)
  | .load .blocking root =>
      let (session, outcome) := session.loadBlocking files waves root
      (session, .outcome outcome)
  | .load (.concurrent schedule) root =>
      let (session, outcome) := session.loadScheduled schedule files waves root
      (session, .outcome outcome)

def callAll (files : FileSystem) (waves : Nat) (session : Session) :
    List Call → Session × List Answer
  | [] => (session, [])
  | call :: calls =>
      let (session, answer) := session.call files waves call
      let (session, answers) := callAll files waves session calls
      (session, answer :: answers)

end Session

end MapChain
