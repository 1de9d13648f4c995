/-
Futures: written once, notified once, placed at most once.

Completing a future takes two moments.  At the first its outcome is stored and
its callback is taken out; then the callback runs; at the second the future is
marked as notified.  Between the two the outcome can be seen but not waited for.
-/
import Strands.Callback

namespace Strands

variable {W : Type}

/-- The record of a future. -/
structure Future (W : Type) where
  strand : Strand
  returnType : TypeTag
  state : Option Outcome := none
  /-- What is to be notified, until it is taken out. -/
  callback : Option (Callback W)
  /-- Whether the callback has returned. -/
  notified : Bool := false
  /-- Whether a unit of work was bound to the future. -/
  claimed : Bool := false
  /-- Whether the client keeps a handle of the future.  It has none before it is
  given the future. -/
  kept : Bool := false

namespace Future

def make (id : FutureId) (spec : FutureSpec) (callback : Callback W) : Future W where
  strand := spec.strand id
  returnType := spec.returnType
  callback := some callback

/-- The future with an outcome, its callback taken out. -/
def complete (f : Future W) (outcome : Outcome) : Future W :=
  { f with state := some outcome, callback := none }

def announce (f : Future W) : Future W := { f with notified := true }

def claim (f : Future W) : Future W := { f with claimed := true }

/-- The future with a handle of it in the client's hands. -/
def keep (f : Future W) : Future W := { f with kept := true }

def forget (f : Future W) : Future W := { f with kept := false }

def view (f : Future W) : FutureView := ⟨f.strand, f.returnType, f.state⟩

/-- What a future's callback holds on to, until it is taken out. -/
def waiting (f : Future W) : Holding := (f.callback.map Callback.held).getD {}

/-- What a future holds on to for as long as it is held itself. -/
def held (f : Future W) : Holding :=
  f.strand.held ++ (f.state.map Outcome.held).getD {} ++ f.waiting

end Future

/-- All futures of a scheduler.  The one with number `n` is at place `n - 1`. -/
abbrev Futures (W : Type) := List (Future W)

namespace Futures

def get? (fs : Futures W) (id : FutureId) : Option (Future W) :=
  match id with
  | 0 => none
  | n + 1 => fs[n]?

def strandOf (fs : Futures W) (id : FutureId) : Strand :=
  ((fs.get? id).map Future.strand).getD default

def modify (fs : Futures W) (id : FutureId) (change : Future W → Future W) : Futures W :=
  match id with
  | 0 => fs
  | n + 1 => List.modify fs n change

def nextId (fs : Futures W) : FutureId := fs.length + 1

theorem mem_of_get? {fs : Futures W} {f : FutureId} {u : Future W} (found : fs.get? f = some u) :
    u ∈ fs := by
  cases f with
  | zero => cases found
  | succ n => exact List.mem_of_getElem? found

end Futures
end Strands
