/-
Units of work bound to the futures they complete.

`start` gives the code a task runs on its strand, and `conclude` the outcome its
future is given when that code ends: a panic becomes a runtime error that keeps
the panic's text, and what a listener's stop method returns is dropped.
-/
import Strands.ObjectType

namespace Strands

variable {W : Type}

/-- The method asked of a listener that is to stop. -/
def stopMethod : String := "gracefulStop"

/-- What a unit of work does. -/
inductive Task (W : Type) where
  | call (receiver : ObjectId) (method : String) (args : List Value)
  /-- Compute an omitted argument from those before it. -/
  | default (expression : Expression W) (args : List Value)
  | stop (listener : ObjectId)
  | work (code : Strand → Code W)

namespace Task

def start (client : Client W) (strand : Strand) : Task W → Code W
  | call receiver method args => client.call receiver strand method args
  | default expression args => expression strand args
  | stop listener => client.call listener strand stopMethod []
  | work code => code strand

/-- The outcome of the task whose code returned an outcome. -/
def conclude (outcome : Outcome) : Task W → Outcome
  | stop _ => outcome.map fun _ => .nil
  | _ => outcome

def held : Task W → Holding
  | call receiver _ args => .ofObject receiver ++ .ofValues args
  | default _ args => .ofValues args
  | stop listener => .ofObject listener
  | work _ => {}

end Task

/-- A task and the future it completes.  A job counts as work in flight from the
moment it is made until it is done with. -/
structure Job (W : Type) where
  task : Task W
  future : FutureId

def Job.held (job : Job W) : Holding := job.task.held ++ .ofFuture job.future

end Strands
