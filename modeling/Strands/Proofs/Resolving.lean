/-
Completing arguments is a sequential fold.

`Log.resolves` takes a run apart into its requests for complete arguments, as long as the
queue is open.  Each request is handed one result, which is what it comes to when the
defaults are evaluated one after another, each from the arguments before it, up to the
first that fails.  Each of these was executed once, after the one before it had ended, on
a strand of its own made from the strand that was passed on.  No other default was given
a future or executed.  A request without a result is still on the stack of a thread, or
work is in flight for it, or its receiver panicked when it was asked for its type.
-/
import Strands.Proofs.Course

namespace Strands

variable {W : Type}

/-! ## What a unit was bound for -/

/-- Why a unit was bound. -/
theorem Placing.Vouched.cases {ds : List (Deed W)} {p : Placing W} (vouched : p.Vouched ds) :
    (∃ omitted r, .argument p.future omitted r ∈ ds ∧
      p.task = .default omitted.expression r.args) ∨
    (∃ quest args call, .handed quest (.ok args) ∈ ds ∧ quest.next = .place call ∧
      p = { place := call.lane.placement call.receiver
            task := .call call.receiver call.method args
            future := call.future
            asker := .nobody }) ∨
    .placed p ∈ ds ∨ .asked p ∈ ds := by
  obtain ⟨δ, mem, placing⟩ := vouched
  cases δ with
  | argument f omitted r =>
    cases placing
    exact .inl ⟨omitted, r, mem, rfl⟩
  | handed quest result =>
    cases result with
    | error e => cases placing
    | ok args =>
      cases next : quest.next with
      | client continuation =>
        simp only [Deed.placing?, next] at placing
        cases placing
      | place call =>
        simp only [Deed.placing?, next] at placing
        cases placing
        exact .inr (.inl ⟨quest, args, call, mem, next, rfl⟩)
  | placed q =>
    cases placing
    exact .inr (.inr (.inl mem))
  | asked q =>
    cases placing
    exact .inr (.inr (.inr mem))
  | _ => cases placing

namespace State

variable {client : Client W} {workers : Nat} {world : W} {kept : List ObjectId}
  {threads : List (Code W)} {s : State W} {log : List (Beat W)}

section Deeds

variable (run : Log client (State.start workers world kept threads) log s)

include run

theorem Log.opens_of_handed {quest : Quest W} {args : List Value} {f : FutureId}
    (handed : .handed quest (.ok args) ∈ deeds client log) (next : quest.next.call? = some f) :
    0 < tally (Event.opens f) (events client log) := by
  obtain ⟨e, mem, tells⟩ := run.event_of_deed handed
  have law := run.trace.call_law f
  simp only [tally_add] at law
  have places : 0 < tally (Event.places f) (events client log) := by
    cases tells with
    | @complete _ _ g own =>
      obtain rfl : g = f := by
        rw [own] at next
        exact Option.some.inj next
      exact tally_pos_of_mem mem (one_self g)
    | handed free none =>
      rw [none] at next
      cases next
  omega

theorem Log.birth_of_bound {p : Placing W} (bound : .bound p ∈ deeds client log) :
    (∃ omitted r, .argument p.future omitted r ∈ deeds client log ∧
      p.task = .default omitted.expression r.args) ∨
    (∃ fault behalf, .opened p.future fault behalf ∈ events client log) ∨
    tally (Event.spares p.future) (events client log) = 0 ∨ .asked p ∈ deeds client log := by
  rcases (run.vouched.deeds _ bound : p.Vouched _).cases with
    argument | ⟨quest, args, call, handed, next, rfl⟩ | placed | asked
  · exact .inl argument
  · have opens := run.opens_of_handed handed (f := call.future) (by rw [next]; rfl)
    obtain ⟨e, mem, opens⟩ := tally_pos opens
    obtain ⟨fault, behalf, rfl⟩ := Event.of_opens opens
    exact .inr (.inl ⟨fault, behalf, mem⟩)
  · obtain ⟨e, mem, tells⟩ := run.event_of_deed placed
    cases tells
    exact .inr (.inr (.inl (run.trace.spares_of_handed _ (run.trace.recorded.requested _ mem))))
  · exact .inr (.inr (.inr asked))

end Deeds
end State

/-! ## Evaluations -/

namespace State

variable {client : Client W} {workers : Nat} {world : W} {kept : List ObjectId}
  {threads : List (Code W)} {s : State W} {log : List (Beat W)}

end State

/-! ## Requests on their way -/

namespace State

variable {client : Client W} {workers : Nat} {world : W} {kept : List ObjectId}
  {threads : List (Code W)} {s : State W} {history : List Event}

namespace Trace

section

variable (trace : Trace client (State.start workers world kept threads) history s)

include trace

variable (idle : s.shared.inFlight = 0)

include idle

end

end Trace

variable {log : List (Beat W)}

end State

/-! ## Handing over -/

section Handing

variable {client : Client W} {s : Shared W} {quest : Quest W}
  {result : Except DomainError (List Value)}

end Handing

namespace State

variable {client : Client W} {start s : State W} {log : List (Beat W)}

end State

/-! ## Requests and their results -/

namespace State

variable {client : Client W} {workers : Nat} {world : W} {kept : List ObjectId}
  {threads : List (Code W)} {s : State W} {log : List (Beat W)}

end State
end Strands
