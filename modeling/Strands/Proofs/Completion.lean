/-
What is complete while no work is in flight.

These are the futures that a schedule call was answered for (`completed_of_counted`) and those
that an invocation has returned (`completed_of_returned`), but for a future that a client is just
binding to a unit of its own.
-/
import Strands.Proofs.Idle
import Strands.Proofs.Replay

namespace Strands

variable {W : Type}

/-- A schedule call for the future was answered, with success or with its refusal. -/
def Answered (history : List Event) (f : FutureId) : Prop :=
  .answered f (.ok ()) ∈ history ∨ .answered f (.error .shutDown) ∈ history

/-- An invocation returned the future. -/
def Returned (history : List Event) (f : FutureId) : Prop :=
  (∃ fault behalf, .opened f fault behalf ∈ history) ∧ .handed f ∈ history

namespace State.Trace

variable {client : Client W} {workers : Nat} {world : W} {kept : List ObjectId}
  {threads : List (Code W)} {s : State W} {history : List Event}

/-- What a schedule call was answered for is counted. -/
theorem counted_of_answered
    (trace : Trace client (State.start workers world kept threads) history s) {f : FutureId}
    (answered : Answered history f) : .counted f true ∈ history := by
  rcases answered with mem | mem
  · obtain ⟨before, after, rfl⟩ := List.append_of_mem mem
    obtain ⟨moment, frame, place, sound⟩ := trace.sound
    exact List.mem_append_left _ (sound (.inl rfl))
  · obtain ⟨before, after, rfl⟩ := List.append_of_mem mem
    obtain ⟨moment, frame, place, sound⟩ := trace.sound
    exact List.mem_append_left _ (sound (.inr rfl))

theorem claimed_of_counted
    (trace : Trace client (State.start workers world kept threads) history s) {f : FutureId}
    {byClient : Bool} (counted : .counted f byClient ∈ history) :
    ∃ behalf, .claimed f byClient behalf ∈ history := by
  obtain ⟨before, after, rfl⟩ := List.append_of_mem counted
  obtain ⟨moment, frame, place, behalf, mem⟩ := trace.sound
  exact ⟨behalf, List.mem_append_left _ mem⟩

/-- What a client has bound and not counted is held by a call that is not finished. -/
theorem binding_of_bound
    (trace : Trace client (State.start workers world kept threads) history s) {f : FutureId}
    (bound : .bound f true ∈ s.stakes) : Binding s f := by
  obtain ⟨frame, ⟨p, rfl, rfl, own⟩, ⟨place⟩⟩ := trace.place bound rfl
  refine ⟨place.thread, place.mem, p, ?_, rfl, ?_⟩
  · rw [place.stack]
    simp
  · have grounded : p.Grounded history place.below := place.grounded.1
    unfold Placing.Grounded at grounded
    cases asker : p.asker with
    | client g =>
      rw [asker] at grounded
      rw [show g = p.future from grounded]
    | nobody =>
      rw [asker] at own
      cases own

/-- A unit is bound until it is counted. -/
theorem not_bound_of_counted
    (trace : Trace client (State.start workers world kept threads) history s) {f : FutureId}
    {byClient byClient' : Bool} (counted : .counted f byClient ∈ history) :
    .bound f byClient' ∉ s.stakes := fun bound => by
  have law := trace.bound_law f
  have once := trace.claims_le f
  have counts := tally_pos_of_mem (n := Event.counts f) counted (one_self f)
  have binds := weigh_pos_of_mem (w := Stake.binds f) bound (one_self f)
  omega

section

variable (trace : Trace client (State.start workers world kept threads) history s)
  (idle : s.shared.inFlight = 0) {f : FutureId}

include trace idle

/-- A unit that was counted is complete while no work is in flight. -/
theorem completed_of_counted (counted : .counted f true ∈ history) :
    ∃ outcome, Completed history s f outcome := by
  obtain ⟨behalf, claimed⟩ := trace.claimed_of_counted counted
  have takes := tally_pos_of_mem (n := Event.takes f) claimed (one_self f)
  have claims := tally_pos_of_mem (n := Event.claims f) claimed (one_self f)
  have handed := trace.hands_of_takes f takes
  have awaited := trace.not_awaited_of_handed handed
  exact trace.idle_completed idle awaited
    (trace.idle_notifies idle awaited (trace.not_spare_of_handed handed)
      (trace.not_bound_of_counted counted) (.inr claims))

/-- A call that returned its future is complete while no work is in flight, unless a
client has just bound the future. -/
theorem completed_of_returned (returned : Returned history f) (bound : .bound f true ∉ s.stakes) :
    ∃ outcome, Completed history s f outcome := by
  obtain ⟨⟨fault, behalf, opened⟩, handed⟩ := returned
  have awaited := trace.not_awaited_of_handed handed
  have begins := tally_pos_of_mem (n := Event.begins f) opened (one_self f)
  exact trace.idle_completed idle awaited
    (trace.idle_notifies idle awaited (trace.not_spare_of_handed handed) bound (.inl begins))

end

end State.Trace

/-- A client that makes a call and places a unit of its own. -/
def callAndUnit : Code Unit :=
  Sample.invoke fun _ => Sample.create fun a => Sample.schedule .free a Sample.done

/-- A client that makes a call and schedules a unit for the call's future. -/
def boundCall : Code Unit := Sample.invoke fun f => Sample.schedule .free f Sample.done

/-- The client claims the future and does not get to count its unit.  The worker computes the
argument of the call and finds that the call comes too late. -/
def overtaken : List ThreadId := List.replicate 20 1 ++ List.replicate 60 0

end Strands
