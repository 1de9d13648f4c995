/-
What a graceful stop reports.
-/
import Strands.Fault

namespace Strands

/-- A step of a graceful stop that can fail. -/
inductive StopStage where
  /-- A stop handler, by its place among the handlers that were run. -/
  | handler (index : Nat)
  | listener (object : ObjectId)
  deriving DecidableEq, Inhabited

def objectName (object : ObjectId) : String := s!"obj#{object}"

def StopStage.display : StopStage → String
  | handler index => s!"stop handler {index}"
  | listener object => s!"listener {objectName object}"

/-- A step that failed, and how. -/
structure StopFailure where
  stage : StopStage
  error : DomainError
  deriving DecidableEq, Inhabited

/-- The outcome of a graceful stop.  A failure never keeps later steps from
being taken. -/
structure StopReport where
  handlersRun : Nat := 0
  listenersStopped : Nat := 0
  failures : List StopFailure := []
  deriving DecidableEq, Inhabited

namespace StopReport

def isClean (r : StopReport) : Bool := r.failures.isEmpty

def fail (r : StopReport) (stage : StopStage) (error : DomainError) : StopReport :=
  { r with failures := r.failures ++ [⟨stage, error⟩] }

/-- The report after one more handler ended with an outcome. -/
def afterHandler (r : StopReport) (outcome : Outcome) : StopReport :=
  let counted := { r with handlersRun := r.handlersRun + 1 }
  match outcome with
  | .ok _ => counted
  | .error e => counted.fail (.handler r.handlersRun) e

/-- The report after one more listener's call ended with an outcome. -/
def afterListener (r : StopReport) (listener : ObjectId) (outcome : Outcome) : StopReport :=
  let counted := { r with listenersStopped := r.listenersStopped + 1 }
  match outcome with
  | .ok _ => counted
  | .error e => counted.fail (.listener listener) e

end StopReport
end Strands
