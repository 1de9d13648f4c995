/-
The run queue, from which all workers take.

It is first in, first out: `items_of_push` puts an entry behind all others, and
`items_of_pop` takes the one in front.  Once closed it takes nothing more, and
whoever closed it is handed what was left.
-/
import Strands.Job

namespace Strands

variable {W : Type}

/-- A group's number. -/
abbrev GroupId := Nat

/-- An entry of the run queue. -/
inductive Item (W : Type) where
  | job (job : Job W)
  | group (group : GroupId)

structure RunQueue (W : Type) where
  items : List (Item W) := []
  closed : Bool := false

namespace RunQueue

/-- The queue with an entry at its back, unless it is closed. -/
def push (q : RunQueue W) (item : Item W) : Option (RunQueue W) :=
  if q.closed then none else some { q with items := q.items ++ [item] }

/-- The front entry and the queue without it. -/
def pop (q : RunQueue W) : Option (Item W × RunQueue W) :=
  match q.items with
  | [] => none
  | item :: rest => some (item, { q with items := rest })

/-- The closed queue.  What was left is in `q.items`. -/
def close (q : RunQueue W) : RunQueue W := { q with items := [], closed := true }

def isEmpty (q : RunQueue W) : Bool := q.items.isEmpty

/-- A push is refused exactly when the queue is closed. -/
theorem push_eq_none_iff {q : RunQueue W} {item : Item W} :
    q.push item = none ↔ q.closed = true := by
  unfold push
  split <;> simp_all

/-- A push puts its entry behind all others. -/
theorem items_of_push {q q' : RunQueue W} {item : Item W} (h : q.push item = some q') :
    q'.items = q.items ++ [item] := by
  unfold push at h
  split at h
  · cases h
  · cases h
    rfl

/-- A pop takes the entry in front. -/
theorem items_of_pop {q q' : RunQueue W} {item : Item W} (h : q.pop = some (item, q')) :
    q.items = item :: q'.items := by
  unfold pop at h
  split at h
  · cases h
  · rename_i first rest hq
    cases h
    exact hq

end RunQueue
end Strands
