/-
What a thread sees when it takes a step, and what a step leaves.
-/
import Strands.State

namespace Strands

variable {W : Type}

/-- What the environment decides in a step. -/
structure Choice where
  /-- A wait that is limited in time comes to its end. -/
  late : Bool := false
  /-- Which of the resting workers is roused. -/
  pick : Nat := 0
  deriving DecidableEq

/-- What a thread sees besides what is shared. -/
structure Sight where
  me : ThreadId
  worker : Bool
  isDone : ThreadId → Bool
  isAlive : ObjectId → Bool
  /-- Whether anybody but the client's own handle holds on to a future. -/
  mentions : FutureId → Bool

/-- What a step leaves: the shared state, the frames in place of the one that
acted, and the threads it started. -/
structure Progress (W : Type) where
  shared : Shared W
  frames : List (Frame W) := []
  spawned : List (Code W) := []

/-- The outcome of code that ended, or threw a panic. -/
def Outcome.ofEnd : Except Panic Outcome → Outcome
  | .ok outcome => outcome
  | .error panic => .error (.ofPanic panic)

end Strands
