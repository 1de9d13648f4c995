/-
The bell that wakes idle workers.

A worker that finds nothing to do locks the bell, looks once more, and rests.
Resting gives up the lock in the same moment.  Ringing marks the bell as rung and
rouses one resting worker, or all of them; a worker that is about to rest and
finds the bell rung does not.
-/
namespace Strands

/-- A thread's number. -/
abbrev ThreadId := Nat

structure Bell where
  /-- Rung since a worker last looked. -/
  rung : Bool := false
  owner : Option ThreadId := none
  /-- The workers at rest, the longest first. -/
  resting : List ThreadId := []
  deriving DecidableEq

namespace Bell

/-- Rouse the resting worker at a place, counted around. -/
def ringOne (b : Bell) (pick : Nat) : Bell :=
  { b with rung := true, resting := b.resting.eraseIdx (pick % b.resting.length) }

def ringAll (b : Bell) : Bell := { b with rung := true, resting := [] }

def lock (b : Bell) (thread : ThreadId) : Bell := { b with owner := some thread }

def unlock (b : Bell) : Bell := { b with owner := none }

def rest (b : Bell) (thread : ThreadId) : Bell :=
  { b with owner := none, resting := b.resting ++ [thread] }

/-- Rest no longer, though nobody rang. -/
def stir (b : Bell) (thread : ThreadId) : Bell :=
  { b with resting := b.resting.filter (· ≠ thread) }

/-- Take note of the ringing and give up the lock. -/
def quiet (b : Bell) : Bell := { b with rung := false, owner := none }

end Bell
end Strands
