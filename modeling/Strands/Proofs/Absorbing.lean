/-
Closed is absorbing.

Once a shutdown has completed and no unit is running any more, no operation gets the runtime out
of that (`State.Absorbing`): the queue stays closed and empty, no unit is run and no group is made,
whoever schedules a unit is refused, whoever makes a call gets a future that has failed, and no
operation leaves a trace on the count of work in flight.
-/
import Strands.Proofs.Scheduling
import Strands.Proofs.TurnedAway

namespace Strands

variable {W : Type}

namespace State

/-- Whatever is done from a state on, the runtime stays closed.  Any number of operations may have
been done by any threads, in `later`, until one begins, and others go on while it is under way. -/
structure Absorbing (client : Client W) (before : List (Beat W)) (s₀ : State W) : Prop where
  /-- The run queue stays closed and empty, and whoever asks is told that the runtime is shut
  down. -/
  stays : ∀ later s, Log client s₀ later s → s.shared.queue.closed = true ∧
    s.shared.queue.items = [] ∧ s.shared.gauges.isShutDown = true
  /-- No unit is run, and none begins: no method, no expression for an argument, no listener's
  stop. -/
  unstarted : ∀ later s, Log client s₀ later s → s.Resting ∧
    ∀ job code, .started job code ∉ deeds client later
  /-- No group is put in the table, but by who was about to find one before. -/
  entries : ∀ later s, Log client s₀ later s → ∀ receiver group,
    s.shared.table.get? receiver = some group →
      s₀.shared.table.get? receiver = some group ∨ s₀.Seeks receiver
  /-- A unit that is scheduled is refused, and its future fails. -/
  declined : ∀ (d : Scheduling W) later here during s, Log client s₀ later here →
    d.operation.Underway client here during s →
    d.Declined client here (before ++ later) during s
  /-- A call whose receiver does not panic gets a future that has failed. -/
  turnedAway : ∀ (d : Calling W) later here during s, Log client s₀ later here →
    (∀ panic, ¬ client.CanFault d.receiver panic) →
    d.operation.Underway client here during s →
    d.TurnedAway client (before ++ later) during s
  /-- As much work is in flight after an operation as before it, but for what other threads have
  taken and given back meanwhile. -/
  balanced : ∀ (d : Operation W) later here during s, Log client s₀ later here →
    d.Underway client here during s → ∀ reply, s.stackOf d.thread = d.replies reply →
    s.shared.inFlight + tally Event.givesShare (events client (d.others during)) =
      here.shared.inFlight + tally Event.takesShare (events client (d.others during))

variable {client : Client W} {workers : Nat} {world : W} {kept : List ObjectId}
  {threads : List (Code W)} {s₀ : State W} {before : List (Beat W)}

/-- A runtime stays closed once a shutdown has completed and no unit is running any more. -/
theorem Log.absorbs (run : Log client (State.start workers world kept threads) before s₀)
    (done : Over before s₀) : Absorbing client before s₀ := by
  have closed := run.sealed done
  have still {later : List (Beat W)} {s : State W} (since : Log client s₀ later s) : s.Sealed :=
    closed.stays run since
  refine ⟨fun later s since => ?_,
    fun later s since => ⟨(still since).resting, closed.not_started run since⟩,
    fun later s since receiver group => closed.entries run since,
    fun d later here during s since => d.declined (run.append since) (still since),
    fun d later here during s since calm => d.turnedAway calm (run.append since) (still since),
    fun d later here during s since underway reply =>
      underway.balanced (run.append since) (still since)⟩
  exact ⟨(still since).closed, (still since).empty, (still since).flag⟩

/-! ## After a shutdown -/

/-- A client shuts the scheduler down.  Then it schedules a unit for a future of its own, and makes
a call that leaves an argument out. -/
def heedless : Code Unit :=
  .ask .shutdown fun _ =>
    Sample.create fun f => Sample.schedule (.group 1) f <| Sample.invoke fun _ => Sample.done

def heedlessStart : State Unit := State.start 1 () [1] [heedless]

/-- The log of some turns and the state that they lead to. -/
def follow (s : State Unit) (turns : List ThreadId) : List (Beat Unit) × State Unit :=
  (s.beats (Sample.client Sample.value) turns, (s.replay (Sample.client Sample.value) turns).2)

def heedlessShut : List (Beat Unit) × State Unit :=
  heedlessStart.follow (List.replicate 7 1 ++ List.replicate 2 0 ++ List.replicate 2 1)

def heedlessOwn : List (Beat Unit) × State Unit := heedlessShut.2.follow (List.replicate 3 1)

def heedlessPlaced : List (Beat Unit) × State Unit := heedlessOwn.2.follow (List.replicate 9 1)

def heedlessNext : List (Beat Unit) × State Unit := heedlessPlaced.2.follow (List.replicate 1 1)

def heedlessCalled : List (Beat Unit) × State Unit := heedlessNext.2.follow (List.replicate 27 1)

def heedlessUnit : Scheduling Unit where
  thread := 1
  role := .thread
  place := .group 1
  work _ := Sample.done
  future := 1
  next _ := Sample.invoke fun _ => Sample.done
  below := []

def heedlessInvocation : Invocation := { receiver := some 1, method := some "m" }

def heedlessCall : Calling Unit where
  thread := 1
  role := .thread
  mode := .concurrent
  invocation := heedlessInvocation
  callback _ := Sample.done
  next := Sample.withFuture fun _ => Sample.done
  below := []
  receiver := 1
  method := "m"
  hasReceiver := rfl
  hasMethod := rfl

/-- Both futures fail because the scheduler is shut down, and the one of the call fails before the
client is given it. -/
theorem absorbs_heedless :
    Completed (events (Sample.client Sample.value)
      (heedlessShut.1 ++ heedlessOwn.1 ++ heedlessPlaced.1)) heedlessPlaced.2 1 refusal ∧
    Completed (events (Sample.client Sample.value)
      (heedlessShut.1 ++ (heedlessOwn.1 ++ heedlessPlaced.1 ++ heedlessNext.1) ++
        heedlessCalled.1)) heedlessCalled.2 2 refusal := by
  have log (s : State Unit) (turns : List ThreadId) :
      Log (Sample.client Sample.value) s (s.follow turns).1 (s.follow turns).2 := log_beats _ _ _
  have resting : heedlessShut.2.threads.all (fun t => (Frame.stakesOf t.stack).isEmpty) = true := by
    decide +kernel
  have done : Over heedlessShut.1 heedlessShut.2 := by
    refine .joined (List.mem_of_getElem? (i := 10) rfl) rfl fun t mem f held => ?_
    rw [List.isEmpty_iff.1 (List.all_eq_true.1 resting t mem)] at held
    cases held
  have absorbing : Absorbing (Sample.client Sample.value) heedlessShut.1 heedlessShut.2 :=
    (log heedlessStart _).absorbs done
  constructor
  · have short : ∀ beat ∈ heedlessPlaced.1, (beat.s.stackOf 1).length ≠ 2 := by decide +kernel
    have underway : heedlessUnit.operation.Underway (Sample.client Sample.value) heedlessOwn.2
        heedlessPlaced.1 heedlessPlaced.2 := {
      called := rfl
      going := log _ _
      unreplied := fun beat mem _ reply replied => short beat mem (congrArg List.length replied) }
    have answered := (absorbing.declined heedlessUnit _ _ _ _ (log _ _) underway).answered
      (.placed 1 (.error .shutDown)) rfl
    cases answered with
    | refused refused => exact refused.failedOwn (List.mem_of_getElem? (i := 12) rfl)
  · have short : ∀ beat ∈ heedlessCalled.1, (beat.s.stackOf 1).length ≠ 2 := by decide +kernel
    have underway : heedlessCall.operation.Underway (Sample.client Sample.value) heedlessNext.2
        heedlessCalled.1 heedlessCalled.2 := {
      called := rfl
      going := log _ _
      unreplied := fun beat mem _ reply replied => short beat mem (congrArg List.length replied) }
    have calm (panic : Panic) : ¬ (Sample.client Sample.value).CanFault 1 panic :=
      fun ⟨_, ends⟩ => Code.not_canEnd_of_finish ends
    have since : Log (Sample.client Sample.value) heedlessShut.2
        (heedlessOwn.1 ++ heedlessPlaced.1 ++ heedlessNext.1) heedlessNext.2 :=
      ((log heedlessShut.2 _).append (log heedlessOwn.2 _)).append (log heedlessPlaced.2 _)
    obtain ⟨f, o, future, _, _, _, completed⟩ :=
      (absorbing.turnedAway heedlessCall _ _ _ _ since calm underway).replies (.future 2) rfl
    cases future
    obtain ⟨u, found, state, _⟩ := id completed
    obtain rfl : refusal = o := by
      have outcome : (heedlessCalled.2.shared.futures.get? 2).bind Future.state =
        some refusal := rfl
      rw [found, Option.bind_some, state] at outcome
      exact (Option.some.inj outcome).symm
    exact completed

end State

end Strands
