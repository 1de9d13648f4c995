/-
Shutdowns that wait for their own caller.

A shutdown on a thread that is no worker waits until no work is in flight.  If a frame
further down on its own stack holds a share of the work in flight, the wait has no end.
`Blocks` names the frames that can do that: the callback of a refused job runs before the
job is given up, that of a call whose arguments fail before the call is, an object may be
asked for its type for a call that is counted already, and a call that is given up drops its
handle of the scheduler before its share.  `Log.waits_for_itself` says that there are no
others and that a thread that waits for itself does so for ever.
-/
import Strands.Proofs.Place
import Strands.Proofs.Replay
import Strands.Proofs.StackShape

namespace Strands

variable {W : Type}

/-- Frames of which one holds a share of the work in flight until what is above has
returned. -/
inductive Blocks : List (Frame W) → Prop
  /-- The callback of a refused job. -/
  | refused (job : Job W) (below : List (Frame W)) :
      Blocks (.announce job.future :: .discard job :: below)
  /-- The callback of a call whose arguments could not be completed. -/
  | failed (f : FutureId) (held : Holding) (below : List (Frame W)) :
      Blocks (.announce f :: .letGo held :: .leave :: .dropHandle :: below)
  /-- An object is asked for its type while a call waits for its arguments. -/
  | asked (object : ObjectId) (site : Site W) (next : Reply → Code W) (f : FutureId)
      (below : List (Frame W)) : site.stakes = [.call f] →
      Blocks (.waiting (.query object site) next :: below)
  /-- A call is given up after a panic, its handle of the scheduler having been the last. -/
  | abandoned (f : FutureId) (panic : Panic) (below : List (Frame W)) :
      Blocks (.leave :: .settle f (.error (.ofPanic panic)) :: below)

theorem Blocks.guarded {frames : List (Frame W)} (blocks : Blocks frames) : Guarded frames := by
  cases blocks with
  | refused job below =>
    exact guarded_of_discard (List.mem_cons_of_mem _ List.mem_cons_self)
  | failed f held below => exact guarded_of_leave (by simp)
  | asked object site next f below own =>
    have held : .call f ∈ (Frame.waiting (.query object site) next).stakes := by
      show _ ∈ site.stakes
      simp only [own, List.mem_singleton]
    exact guarded_of_mem List.mem_cons_self held Nat.one_pos
  | abandoned f panic below => exact guarded_of_leave List.mem_cons_self

section Blocking

variable {frame : Frame W} {frames below : List (Frame W)}

theorem stakes_of_guarded {role : Role W} {next : Reply → Code W}
    (guarded : Guarded [.waiting role next]) :
    (∃ job, role = .task job) ∨ ∃ object site f, role = .query object site ∧
      site.stakes = [.call f] := by
  have none (next : Next W) (held : 0 < weigh Stake.share next.stakes) :
      ∃ f, next.stakes = [.call f] := by
    cases next with
    | place call => exact ⟨call.future, rfl⟩
    | client continuation => cases held
  cases role with
  | task job => exact .inl ⟨job, rfl⟩
  | query object site =>
    cases site with
    | omitted lookup | expressions lookup pending =>
      obtain ⟨f, own⟩ := none lookup.next (by simpa [Guarded] using guarded)
      exact .inr ⟨object, _, f, rfl, own⟩
    | _ => simp [Guarded, Stake.share] at guarded
  | _ => simp [Guarded] at guarded

def Frame.isNeutral : Frame W → Bool
  | awaitIdle | waiting _ _ | deliver _ | letGo _ | announce _ | dropHandle | poll | endTurn _
  | askListeners _ => true
  | _ => false

/-- What holds a share further down on the stack of a thread that is no worker blocks it. -/
theorem blocks_of_guarded (seated : Stacked (Frame.Seated false) (frame :: below))
    (neutral : frame.isNeutral = true)
    (fresh : ∀ held after, frame = .letGo held → below ≠ .leave :: after)
    (guarded : Guarded below) : ∃ rest, rest <:+ frame :: below ∧ Blocks rest := by
  induction below generalizing frame with
  | nil => simp [Guarded] at guarded
  | cons next others ih =>
    obtain ⟨⟨fits, _⟩, lower⟩ := seated
    have further (neutral' : next.isNeutral = true) (free : ¬ Guarded [next])
        (fresh' : ∀ held after, next = .letGo held → others ≠ .leave :: after) :
        ∃ rest, rest <:+ frame :: next :: others ∧ Blocks rest := by
      obtain ⟨rest, suffix, blocks⟩ := ih lower neutral' fresh'
        ((guarded_cons.1 guarded).resolve_left free)
      exact ⟨rest, suffix.trans (List.suffix_cons _ _), blocks⟩
    cases next with
    | discard job =>
      rcases fits with rfl | rfl
      · cases neutral
      · exact ⟨_, List.suffix_rfl, .refused job others⟩
    | settle f outcome | drain group | raiseFlag =>
      cases frame with
      | leave | discard job | drain group' => cases neutral
      | _ => cases fits
    | ringAll | lockCrew =>
      obtain rfl := fits
      cases neutral
    | leave =>
      rcases fits with ⟨staff, _⟩ | ⟨⟨held, rfl⟩, after, rfl⟩ | ⟨_, f, panic, after, rfl⟩
      · cases staff
      · exact absurd rfl (fresh held _ rfl)
      · exact ⟨_, List.suffix_cons _ _, .abandoned f panic after⟩
    | waiting role code =>
      by_cases own : Guarded [.waiting role code]
      · rcases stakes_of_guarded own with ⟨job, rfl⟩ | ⟨object, site, f, rfl, held⟩
        · cases lower.1.suits
        · exact ⟨_, List.suffix_cons _ _, .asked object site code f others held⟩
      · exact further rfl own fun held after eq => by cases eq
    | letGo held =>
      by_cases call : ∃ after, others = .leave :: after
      · obtain ⟨after, rfl⟩ := call
        rcases lower.1.fits with ⟨staff, _⟩ | ⟨_, after, rfl⟩ | ⟨drops, _⟩
        · cases staff
        · cases frame with
          | announce f => exact ⟨_, List.suffix_rfl, .failed f held after⟩
          | awaitIdle | waiting role next | deliver reply | letGo held' | dropHandle | poll
          | endTurn group | askListeners stopping => cases fits
          | _ => cases neutral
        · cases drops
      · exact further rfl (by simp [Guarded]) fun _ after _ eq => call ⟨after, eq⟩
    | deliver reply =>
      exact further rfl (by cases reply <;> simp [Guarded, Stake.share]) fun _ _ eq => by cases eq
    | announce f | dropHandle | poll | endTurn group | askListeners stopping =>
      exact further rfl (by simp [Guarded, Stake.share]) fun _ _ eq => by cases eq
    | _ => cases isPatient_of_fits fits

end Blocking

namespace State

/-- A thread waits for work in flight to end of which it holds a share itself, further down on
its stack. -/
def SelfWaiting (s : State W) (thread : ThreadId) : Prop :=
  ∃ t below, s.threads[thread]? = some t ∧ t.stack = .awaitIdle :: below ∧ Guarded below

variable {client : Client W} {workers : Nat} {world : W} {kept : List ObjectId}
  {threads : List (Code W)} {s s' : State W} {history : List Event} {log : List (Beat W)}
  {thread : ThreadId}

theorem Trace.selfWaiting_iff
    (trace : Trace client (State.start workers world kept threads) history s) :
    SelfWaiting s thread ↔ ∃ t below rest, s.threads[thread]? = some t ∧ t.worker = false ∧
      t.stack = .awaitIdle :: below ∧ rest <:+ below ∧ Blocks rest := by
  constructor
  · rintro ⟨t, below, found, stack, guarded⟩
    have seated := trace.seated t (List.mem_of_getElem? found)
    rw [stack] at seated
    have outside : t.worker = false := by simpa [Frame.suits] using seated.1.suits
    rw [outside] at seated
    obtain ⟨rest, suffix, blocks⟩ :=
      blocks_of_guarded seated rfl (fun held after eq => by cases eq) guarded
    refine ⟨t, below, rest, found, outside, stack, ?_, blocks⟩
    rcases List.suffix_cons_iff.1 suffix with rfl | lower
    · cases blocks
    · exact lower
  · rintro ⟨t, below, rest, found, _, stack, ⟨above, rfl⟩, blocks⟩
    exact ⟨t, _, found, stack, guarded_append.2 (.inr blocks.guarded)⟩

theorem Trace.step_of_selfWaiting
    (trace : Trace client (State.start workers world kept threads) history s)
    (waiting : SelfWaiting s thread) (choice : Choice) : s.step client thread choice = none := by
  obtain ⟨t, below, found, stack, guarded⟩ := waiting
  have mem := List.mem_of_getElem? found
  have busy : s.shared.inFlight ≠ 0 := fun idle => by
    have grounded := trace.grounded t mem
    rw [stack] at grounded
    let place : Place history s .awaitIdle :=
      ⟨t, [], below, mem, stack, grounded.1, grounded.2⟩
    exact trace.not_guarded idle place guarded
  refine step_eq_none (acting_eq found stack) (fun reply eq => by cases eq) fun _ _ _ => ?_
  simp [Frame.step, awaitIdleStep, busy]

/-- A thread waits for itself exactly if it is no worker and has shut the scheduler down above
one of these frames, and then it waits for ever. -/
theorem Log.waits_for_itself (run : Log client (State.start workers world kept threads) log s)
    (thread : ThreadId) :
    (SelfWaiting s thread ↔ ∃ t below rest, s.threads[thread]? = some t ∧ t.worker = false ∧
      t.stack = .awaitIdle :: below ∧ rest <:+ below ∧ Blocks rest) ∧
    (SelfWaiting s thread → ∀ later s', Log client s later s' →
      SelfWaiting s' thread ∧ ∀ choice, s'.step client thread choice = none) := by
  refine ⟨run.trace.selfWaiting_iff, fun waiting later s' next => ?_⟩
  have still : SelfWaiting s' thread := by
    induction next with
    | start => exact waiting
    | @step later s₁ s₂ actor choice next taken ih =>
      obtain ⟨acted⟩ := step_cases taken
      have different : thread ≠ actor := by
        rintro rfl
        have none := (run.append next).trace.step_of_selfWaiting ih choice
        rw [taken] at none
        cases none
      obtain ⟨t, below, found, stack, guarded⟩ := ih
      exact ⟨t, below, acted.stays different found, stack, guarded⟩
  exact ⟨still, (run.append next).trace.step_of_selfWaiting still⟩

/-- A client that gives a call one argument too many and shuts the scheduler down in its
callback. -/
def overfull : Code Unit :=
  .invoke .concurrent { receiver := some 1, method := some "m", args := [.nil, .nil] }
    (fun _ => .ask .shutdown fun _ => Sample.done) fun _ => Sample.done

def overfullStart : State Unit := State.start 1 () [1, 2] [overfull]

/-- The client calls, and shuts the scheduler down. -/
def overfullTurns : List ThreadId := List.replicate 10 1

def overfullLog : List (Beat Unit) := overfullStart.beats (Sample.client Sample.value) overfullTurns

def overfullEnd : State Unit := (overfullStart.replay (Sample.client Sample.value) overfullTurns).2

theorem selfWaiting_overfullEnd : SelfWaiting overfullEnd 1 :=
  ⟨_, _, rfl, rfl, guarded_of_leave (List.mem_of_getElem? (i := 4) rfl)⟩

/-- The shutdown waits for the call whose callback it is called in. -/
theorem waits_for_itself_overfull :
    (∃ t below rest, overfullEnd.threads[1]? = some t ∧ t.worker = false ∧
      t.stack = .awaitIdle :: below ∧ rest <:+ below ∧ Blocks rest) ∧
    ∀ later s', Log (Sample.client Sample.value) overfullEnd later s' →
      SelfWaiting s' 1 ∧ ∀ choice, s'.step (Sample.client Sample.value) 1 choice = none := by
  have run : Log (Sample.client Sample.value) overfullStart overfullLog overfullEnd :=
    log_beats _ _ _
  obtain ⟨shape, forever⟩ := run.waits_for_itself 1
  exact ⟨shape.1 selfWaiting_overfullEnd, forever selfWaiting_overfullEnd⟩

/-- A shutdown comes to wait for its own caller. -/
theorem selfWaiting_overfull : ∃ history s,
    Trace (Sample.client Sample.value) overfullStart history s ∧ SelfWaiting s 1 :=
  ⟨_, _, trace_replay _ overfullStart overfullTurns, selfWaiting_overfullEnd⟩

end State
end Strands
