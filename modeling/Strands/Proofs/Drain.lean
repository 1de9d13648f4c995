/-
Shutting down drains, and dropping the last handle drains unless a worker drops it.

`Log.drains`: as long as no worker begins a shutdown, no sheltered work is refused; and once a
shutdown has found no work in flight, or whenever none is, every unit of it was executed with its
own code, and all of it is complete, with an outcome of its own.

Dropping handles does not always drain.  A call that waits for its arguments holds a handle,
which is dropped where the last argument was computed: if it is the last one, a worker begins the
shutdown and refuses what is queued.  `Log.drops_drain` says that this is the only way for
accepted work to be refused, and what its outcome is then.
-/
import Strands.Proofs.Handles
import Strands.Proofs.Units

namespace Strands

variable {W : Type}

/-- An outcome that comes from the work itself: that of the unit which was executed, or the
failure that kept a call from being placed, which may be that of an omitted argument. -/
inductive Earns (client : Client W) (log : List (Beat W)) (s : State W) (f : FutureId) :
    Outcome → Prop
  | unit {outcome : Outcome} : .ended f outcome ∈ events client log →
      RunsTo client log s f outcome → Earns client log s f outcome
  | fault {panic : Panic} {behalf : List FutureId} :
      .opened f (some panic) behalf ∈ events client log →
      Earns client log s f (.error (.ofPanic panic))
  | failure {e : DomainError} :
      .faulted f e ∈ events client log ∨ .failed f e ∈ events client log →
      Earns client log s f (.error e)
  | argument {d : FutureId} {e : DomainError} : .argument d (some f) ∈ events client log →
      .ended d (.error e) ∈ events client log → RunsTo client log s d (.error e) →
      Earns client log s f (.error e)

/-- Every unit that was bound to the future was executed. -/
def Executes (client : Client W) (log : List (Beat W)) (s : State W) (f : FutureId) : Prop :=
  ∀ byClient behalf, .claimed f byClient behalf ∈ events client log →
    Ran (events client log) f ∧
      ∃ outcome, .ended f outcome ∈ events client log ∧ RunsTo client log s f outcome

namespace State

variable {client : Client W} {workers : Nat} {world : W} {kept : List ObjectId}
  {threads : List (Code W)} {s : State W} {log : List (Beat W)}

section

variable (run : Log client (State.start workers world kept threads) log s) {f : FutureId}

include run

theorem Log.earns_of_earned {outcome : Outcome} (earned : Earned (events client log) f outcome) :
    Earns client log s f outcome := by
  rcases earned with ended | ⟨panic, behalf, opened, rfl⟩ | ⟨e, failed, rfl⟩ |
    ⟨d, e, argument, ended, rfl⟩
  · exact .unit ended (run.unit_of_ended ended)
  · exact .fault opened
  · exact .failure failed
  · exact .argument argument ended (run.unit_of_ended ended)

variable (graceful : .shutdown true ∉ events client log) (sheltered : Sheltered (events client log) f)
  (waited : .idle ∈ events client log ∨ s.shared.inFlight = 0)

include graceful sheltered waited

theorem Log.executes_of_sheltered : Executes client log s f := fun _ _ claimed => by
  obtain ⟨ran, outcome, ended⟩ := run.trace.ran_of_sheltered graceful waited sheltered claimed
  exact ⟨ran, outcome, ended, run.unit_of_ended ended⟩

theorem Log.earns_of_sheltered :
    ∃ outcome, Completed (events client log) s f outcome ∧ Earns client log s f outcome := by
  obtain ⟨outcome, completed, earned⟩ := run.trace.completed_of_sheltered graceful waited sheltered
  exact ⟨outcome, completed, run.earns_of_earned earned⟩

end

/-- Sheltered work is not refused.  When a shutdown has waited for it, or no work is in
flight, every unit of it was executed and has ended, and all of it is complete. -/
theorem Log.drains (run : Log client (State.start workers world kept threads) log s)
    (graceful : .shutdown true ∉ events client log) {f : FutureId}
    (sheltered : Sheltered (events client log) f) : ¬ Refused (events client log) f ∧
    (.idle ∈ events client log ∨ s.shared.inFlight = 0 → Executes client log s f ∧
      ∃ outcome, Completed (events client log) s f outcome ∧ Earns client log s f outcome) :=
  ⟨run.trace.not_refused_of_sheltered graceful sheltered, fun waited =>
    ⟨run.executes_of_sheltered graceful sheltered waited,
      run.earns_of_sheltered graceful sheltered waited⟩⟩

/-- A client that makes a call, places a unit of its own and then shuts down. -/
def callUnitShutdown : Code Unit :=
  Sample.invoke fun _ => Sample.create fun a =>
    Sample.schedule .free a (.ask .shutdown fun _ => Sample.done)

/-- The argument of the call is not computed when the shutdown begins. -/
theorem drains_callUnitShutdown :
    (∃ outcome, Completed (Sample.run Sample.value callUnitShutdown).1
      (Sample.run Sample.value callUnitShutdown).2 1 outcome ∧
      Earns (Sample.client Sample.value) (Sample.log Sample.value callUnitShutdown)
        (Sample.run Sample.value callUnitShutdown).2 1 outcome) ∧
    ∃ outcome, RunsTo (Sample.client Sample.value) (Sample.log Sample.value callUnitShutdown)
      (Sample.run Sample.value callUnitShutdown).2 3 outcome := by
  have run := Sample.log_run Sample.value callUnitShutdown
  have trace := Sample.trace_run Sample.value callUnitShutdown
  have drained {f : FutureId} := run.drains (f := f)
  simp only [Executes, Sample.events_log] at drained
  have graceful : .shutdown true ∉ (Sample.run Sample.value callUnitShutdown).1 := by
    decide +kernel
  have waited : .idle ∈ (Sample.run Sample.value callUnitShutdown).1 :=
    List.mem_of_getElem? (i := 68) rfl
  have split := (List.take_append_drop 28 (Sample.run Sample.value callUnitShutdown).1).symm
  have unstopped : Unstopped ((Sample.run Sample.value callUnitShutdown).1.take 28) := by
    decide +kernel
  have call : Sheltered (Sample.run Sample.value callUnitShutdown).1 1 :=
    .call split unstopped
      ⟨⟨none, [], List.mem_of_getElem? (i := 3) rfl⟩, List.mem_of_getElem? (i := 17) rfl⟩
      (by decide +kernel)
  have unit : Sheltered (Sample.run Sample.value callUnitShutdown).1 3 :=
    trace.sheltered_of_answered split unstopped (.inl (List.mem_of_getElem? (i := 26) rfl))
  have claimed : .claimed 3 true [] ∈ (Sample.run Sample.value callUnitShutdown).1 :=
    List.mem_of_getElem? (i := 21) rfl
  obtain ⟨_, outcome, _, runs⟩ := ((drained graceful unit).2 (.inl waited)).1 _ _ claimed
  exact ⟨((drained graceful call).2 (.inl waited)).2, outcome, runs⟩

def boundCallShutdown : Code Unit :=
  Sample.invoke fun f => Sample.schedule .free f (.ask .shutdown fun _ => Sample.done)

/-- A call whose future is taken before its arguments are complete is not made, though no
worker shuts down and the shutdown waits. -/
theorem taken_call_not_made : ∃ (client : Client Unit) (start s : State Unit)
    (history before after : List Event), Trace client start history s ∧
      history = before ++ after ∧ Unstopped before ∧ Returned before 1 ∧
      .shutdown true ∉ history ∧ .idle ∈ history ∧ .rejected 1 false ∈ history ∧
      ∀ behalf, .claimed 1 false behalf ∉ history := by
  refine ⟨_, _, _, _, _, _, Sample.trace_run Sample.value boundCallShutdown,
    (List.take_append_drop 26 _).symm, by decide +kernel, ?_, by decide +kernel,
    List.mem_of_getElem? (i := 57) rfl, List.mem_of_getElem? (i := 31) rfl,
    fun behalf own => ?_⟩
  · exact ⟨⟨none, [], List.mem_of_getElem? (i := 3) rfl⟩, List.mem_of_getElem? (i := 17) rfl⟩
  · -- The client's unit is the only one that was bound.
    have taken : .claimed 1 true [] ∈ (Sample.run Sample.value boundCallShutdown).1 :=
      List.mem_of_getElem? (i := 19) rfl
    have both := add_le_tally (n := Event.claims 1) taken own (by simp)
    have once : tally (Event.claims 1) (Sample.run Sample.value boundCallShutdown).1 = 1 := by
      decide +kernel
    simp only [Event.claims, one_self] at both
    omega

/-! ## Dropping handles -/

/-- Work that was accepted while clients kept a handle and nobody had asked for a
shutdown.  If a job of it is refused, a worker has begun to shut down, and unless it was
asked to, it had dropped the last handle.  If no worker has, the work is executed and
completed with an outcome of its own.  In any case it is complete when no work is in
flight, with such an outcome or the refusal. -/
theorem Log.drops_drain (run : Log client (State.start workers world kept threads) log s)
    {before after : List Event} (eq : events client log = before ++ after) (owned : Owned before)
    (unasked : .shutdownAsked ∉ before) {f : FutureId}
    (accepted : .counted f true ∈ before ∨
      Returned before f ∧ ¬ Taken (events client log) f) :
    (Repelled (events client log) f → .shutdown true ∈ events client log ∧
      (.shutdownAsked ∈ events client log ∨ .handleDropped true ∈ events client log)) ∧
    (.shutdown true ∉ events client log → .idle ∈ events client log ∨ s.shared.inFlight = 0 →
      Executes client log s f ∧
      ∃ outcome, Completed (events client log) s f outcome ∧ Earns client log s f outcome) ∧
    (s.shared.inFlight = 0 → ∃ outcome, Completed (events client log) s f outcome ∧
      (Earns client log s f outcome ∨ Repelled (events client log) f ∧ outcome = refusal)) := by
  have trace := run.trace
  have sheltered : Sheltered (events client log) f := by
    obtain ⟨s', trace'⟩ := (eq ▸ trace).ofPrefix
    have unstopped := trace'.unstopped_of_owned owned unasked
    rcases accepted with counted | ⟨returned, untaken⟩
    · exact .unit eq unstopped counted
    · exact .call eq unstopped returned untaken
  refine ⟨fun repelled => ?_, fun graceful waited =>
    ⟨run.executes_of_sheltered graceful sheltered waited,
      run.earns_of_sheltered graceful sheltered waited⟩, fun idle => ?_⟩
  · have began : .shutdown true ∈ events client log := by
      by_contra graceful
      exact trace.not_repelled_of_sheltered graceful sheltered repelled
    exact ⟨began, trace.cause_of_shutdown began⟩
  · have completed : ∃ outcome, Completed (events client log) s f outcome := by
      rcases accepted with counted | ⟨⟨⟨fault, behalf, opened⟩, handed⟩, untaken⟩
      · exact trace.completed_of_counted idle (eq ▸ List.mem_append_left _ counted)
      · have opened' : .opened f fault behalf ∈ events client log :=
          eq ▸ List.mem_append_left _ opened
        exact trace.completed_of_returned idle
          ⟨⟨fault, behalf, opened'⟩, eq ▸ List.mem_append_left _ handed⟩
          fun bound => untaken (trace.taken_of_bound opened' bound)
    obtain ⟨outcome, completed⟩ := completed
    exact ⟨outcome, completed,
      (trace.earned_of_completed completed).imp_left run.earns_of_earned⟩

def unitAndDrop : Code Unit :=
  Sample.create fun a => Sample.schedule .free a (.ask .dropHandle fun _ => Sample.done)

theorem drops_drain_unitAndDrop :
    (∃ outcome, RunsTo (Sample.client Sample.value) (Sample.log Sample.value unitAndDrop)
      (Sample.run Sample.value unitAndDrop).2 1 outcome) ∧
    ∃ outcome, Completed (Sample.run Sample.value unitAndDrop).1
      (Sample.run Sample.value unitAndDrop).2 1 outcome ∧
      Earns (Sample.client Sample.value) (Sample.log Sample.value unitAndDrop)
        (Sample.run Sample.value unitAndDrop).2 1 outcome := by
  have run := Sample.log_run Sample.value unitAndDrop
  have split := (List.take_append_drop 9 (Sample.run Sample.value unitAndDrop).1).symm
  have owned : Owned ((Sample.run Sample.value unitAndDrop).1.take 9) :=
    owned_of_unyielded (by decide +kernel)
  have unasked : .shutdownAsked ∉ (Sample.run Sample.value unitAndDrop).1.take 9 := by
    decide +kernel
  have graceful : .shutdown true ∉ (Sample.run Sample.value unitAndDrop).1 := by
    decide +kernel
  have accepted : .counted 1 true ∈ (Sample.run Sample.value unitAndDrop).1.take 9 :=
    List.mem_of_getElem? (i := 4) rfl
  have claimed : .claimed 1 true [] ∈ (Sample.run Sample.value unitAndDrop).1 :=
    List.mem_of_getElem? (i := 3) rfl
  obtain ⟨_, drained, _⟩ := run.drops_drain
    ((Sample.events_log _ _).trans split) owned unasked (.inl accepted)
  simp only [Executes, Sample.events_log] at drained
  obtain ⟨executes, completed⟩ := drained graceful (.inr rfl)
  obtain ⟨_, outcome, _, runs⟩ := executes _ _ claimed
  exact ⟨⟨outcome, runs⟩, completed⟩

def callAndDrop : Code Unit :=
  Sample.invoke fun _ => .ask .dropHandle fun _ => Sample.done

/-- The last handle is that of the call, and the worker that drops it refuses the call. -/
theorem drop_refuses_call : ∃ (client : Client Unit) (start s : State Unit)
    (history before after : List Event), Trace client start history s ∧
      history = before ++ after ∧ Owned before ∧ .shutdownAsked ∉ history ∧
      Returned before 1 ∧ ¬ Taken history 1 ∧ .shutdown true ∈ history ∧
      Refused history 1 ∧ (s.shared.futures.get? 1).bind Future.state = some refusal := by
  refine ⟨_, _, _, _, _, _, Sample.trace_run Sample.value callAndDrop,
    (List.take_append_drop 18 _).symm, owned_of_unyielded ?_, ?_, ?_, by decide +kernel,
    List.mem_of_getElem? (i := 35) rfl,
    .inr (.inr (.inr ⟨[1], List.mem_of_getElem? (i := 36) rfl, by simp⟩)), rfl⟩
  · decide +kernel
  · decide +kernel
  · exact ⟨⟨none, [], List.mem_of_getElem? (i := 3) rfl⟩, List.mem_of_getElem? (i := 17) rfl⟩

end State
end Strands
