/-
What is notified of a future's outcome.

A future made for a client notifies the client's code.  A future made for an
omitted argument carries the rest of the resolution instead: which parameters
are still to be filled in, the arguments so far, and what to do with the
complete list.
-/
import Strands.Job

namespace Strands

variable {W : Type}

/-- A call that waits for its arguments. -/
structure PendingCall where
  receiver : ObjectId
  method : String
  lane : Lane
  future : FutureId

/-- What complete arguments, or the failure to complete them, are handed to. -/
inductive Next (W : Type) where
  /-- Place the call.  Until then it counts as work in flight and holds a handle
  of the scheduler. -/
  | place (call : PendingCall)
  | client (continuation : Except DomainError (List Value) → Code W)

/-- Arguments being completed.  Each reference to it holds a handle of the
scheduler. -/
structure Resolution (W : Type) where
  pending : List (Omitted W)
  args : List Value
  parent : Option Strand
  metadata : Metadata
  next : Next W

/-- The notification of a future. -/
inductive Callback (W : Type) where
  | silent
  | client (notify : Outcome → Code W)
  /-- The outcome is the next argument of a resolution. -/
  | argument (resolution : Resolution W)

namespace Next

/-- What is held on to until the arguments are complete. -/
def held : Next W → Holding
  | place call => .ofObject call.receiver ++ .ofFuture call.future
  | client _ => {}

end Next

namespace Resolution

/-- What the future of the next argument is made with. -/
def spec (r : Resolution W) (param : String) : FutureSpec where
  strandName := some s!"default:{param}"
  metadata := r.metadata
  parent := r.parent.map Strand.id

/-- What a resolution holds on to besides the arguments and what comes next. -/
def background (r : Resolution W) : Holding := .ofParent r.parent

def held (r : Resolution W) : Holding := .ofValues r.args ++ r.background ++ r.next.held

end Resolution

def Callback.held : Callback W → Holding
  | argument resolution => resolution.held
  | _ => {}

end Strands
