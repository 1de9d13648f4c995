/-
Scheduling a unit in a runtime that is closed for good.

A client schedules a unit for a future of its own.  The unit is bound to the future and then
refused, by one route on the free lane and by another on a receiver's: the future fails and its
callback is notified, and only when the callback has returned is the client told that the
scheduler is shut down (`Scheduling.Refused`).  `Scheduling.Stage` lists what the thread may have
left to do meanwhile.
-/
import Strands.Proofs.Refusing

namespace Strands

variable {W : Type}

/-- A unit that a thread is about to schedule, and what the thread has left to do then. -/
structure Scheduling (W : Type) where
  thread : ThreadId
  role : Role W
  place : Placement
  work : Strand → Code W
  future : FutureId
  next : Reply → Code W
  below : List (Frame W)

namespace Scheduling

variable (d : Scheduling W)

def operation : Operation W where
  thread := d.thread
  role := d.role
  code := .schedule d.place d.work d.future d.next
  next := d.next
  below := d.below
  asks := rfl

def placing : Placing W where
  place := d.place
  task := .work d.work
  future := d.future
  asker := .client d.future

def claims : List (Frame W) := .claim d.placing :: .letGo d.place.held :: d.operation.waits

def passes (reply : Reply) : List (Frame W) := d.operation.passes reply d.place.held

/-- The client is told that the unit was refused. -/
def refusedReply : Reply := .placed d.future (.error .shutDown)

def Terminal (s : State W) : Prop :=
  ∃ u outcome, s.shared.futures.get? d.future = some u ∧ u.state = some outcome

def Pending (s : State W) : Prop := ∃ u, s.shared.futures.get? d.future = some u ∧ u.state = none

/-- Other threads have not completed the future. -/
def Alone (client : Client W) (log : List (Beat W)) : Prop :=
  ∀ beat ∈ d.operation.others log, ∀ outcome failing,
    beat.event client ≠ .notified d.future outcome failing

/-- The client had no handle of the future when it scheduled the unit. -/
def Unknown (log : List (Beat W)) : Prop :=
  ∃ beat ∈ log, beat.thread = d.thread ∧ beat.s.stackOf d.thread = d.operation.begun ∧
    beat.s.shared.hasHandle d.future = false

/-- The future was bound to another unit when this one was about to be bound to it. -/
def Forestalled (log : List (Beat W)) : Prop :=
  ∃ beat ∈ log, beat.thread = d.thread ∧ beat.s.stackOf d.thread = d.claims ∧
    ∃ u, beat.s.shared.futures.get? d.future = some u ∧ u.claimed = true

/-- What has become of the future of a unit that was refused. -/
structure Refused (client : Client W) (s₀ : State W) (before during : List (Beat W))
    (s : State W) : Prop where
  terminal : d.Terminal s
  /-- If it was pending, it has failed, the callback was notified of that and of nothing else, and
  the callback has returned. -/
  failed : d.Pending s₀ → d.Alone client during →
    Completed (events client (before ++ during)) s d.future refusal
  /-- So it has if the client made the future by hand. -/
  failedOwn : .created d.future ∈ events client before →
    Completed (events client (before ++ during)) s d.future refusal

/-- What a client is told that schedules a unit. -/
inductive Answered (client : Client W) (s₀ : State W) (before during : List (Beat W))
    (s : State W) : Reply → Prop
  | unknown : d.Unknown during → Answered client s₀ before during s .unknown
  | forestalled : d.Forestalled during →
      Answered client s₀ before during s (.placed d.future (.error (.alreadyScheduled d.future)))
  | refused : d.Refused client s₀ before during s →
      Answered client s₀ before during s d.refusedReply

/-- A unit is scheduled in vain, and nobody waits for it. -/
structure Declined (client : Client W) (s₀ : State W) (before during : List (Beat W))
    (s : State W) : Prop where
  /-- Scheduling it takes so many steps at most, but for client code. -/
  short : (d.operation.own during).length ≤ 9
  /-- The thread can go on, unless client code has it. -/
  goes : (∀ reply, s.stackOf d.thread ≠ d.operation.replies reply) → ∀ choice,
    (∃ s', s.step client d.thread choice = some s') ∨
      d.operation.lends (s.stackOf d.thread) = true
  answered : ∀ reply, s.stackOf d.thread = d.operation.replies reply →
    d.Answered client s₀ before during s reply

/-! ## Stages -/

def Quiet (client : Client W) (log : List (Beat W)) : Prop :=
  ∀ beat ∈ log, beat.thread = d.thread → ∀ outcome failing,
    beat.event client ≠ .notified d.future outcome failing

/-- The future was complete before it could fail, because of others. -/
structure Late (client : Client W) (s₀ : State W) (before log : List (Beat W)) : Prop where
  ignored : .ignored d.future ∈ events client log
  notOwn : .created d.future ∉ events client before
  others : d.Pending s₀ → ¬ d.Alone client log

/-- Why the client is told something without the future being failed. -/
inductive Excused (client : Client W) (s₀ : State W) (before log : List (Beat W)) : Reply → Prop
  | unknown : d.Unknown log → Excused client s₀ before log .unknown
  | forestalled : d.Forestalled log →
      Excused client s₀ before log (.placed d.future (.error (.alreadyScheduled d.future)))
  | late : d.Late client s₀ before log → Excused client s₀ before log d.refusedReply

inductive Stage (client : Client W) (s₀ : State W) (before log : List (Beat W)) :
    Nat → List (Frame W) → Prop
  | begun : d.Quiet client log → Stage client s₀ before log 9 d.operation.begun
  | claims : .requested d.future ∈ events client log → d.Quiet client log →
      Stage client s₀ before log 8 d.claims
  | bars {frame : Frame W} : .requested d.future ∈ events client log → d.Quiet client log →
      frame.barred? = some (d.future, .client d.future) →
      Stage client s₀ before log (5 + frame.barLength)
        (frame :: .letGo d.place.held :: d.operation.waits)
  | settles (job : Job W) : .requested d.future ∈ events client log → d.Quiet client log →
      Stage client s₀ before log 5
        (.settle d.future refusal :: .discard job :: d.passes d.refusedReply)
  | ends {left : Nat} {stack : List (Frame W)} :
      d.operation.Ending client d.future refusal d.refusedReply d.place.held log left stack →
      Stage client s₀ before log left stack
  | excused {reply : Reply} {chores : List (Frame W)} : d.Excused client s₀ before log reply →
      Chores chores →
      Stage client s₀ before log (weigh Frame.choreLength chores + 1) (chores ++ d.passes reply)
  | replies {reply : Reply} : d.Excused client s₀ before log reply →
      Stage client s₀ before log 0 (d.operation.replies reply)

variable {d} {client : Client W} {s₀ s s' : State W} {before log : List (Beat W)} {left : Nat}
  {choice : Choice} {reply : Reply}

theorem Alone.of_append {later : List (Beat W)} (alone : d.Alone client (log ++ later)) :
    d.Alone client log := by
  refine fun beat mem => alone beat ?_
  rw [Operation.others, List.filter_append]
  exact List.mem_append_left _ mem

theorem Excused.mono (excused : d.Excused client s₀ before log reply) (later : List (Beat W)) :
    d.Excused client s₀ before (log ++ later) reply := by
  cases excused with
  | unknown unknown =>
    obtain ⟨beat, mem, stood⟩ := unknown
    exact .unknown ⟨beat, List.mem_append_left _ mem, stood⟩
  | forestalled forestalled =>
    obtain ⟨beat, mem, stood⟩ := forestalled
    exact .forestalled ⟨beat, List.mem_append_left _ mem, stood⟩
  | late late =>
    exact .late ⟨mem_events_left late.ignored _, late.notOwn,
      fun pending alone => late.others pending alone.of_append⟩

theorem Quiet.snoc (quiet : d.Quiet client log) {beat : Beat W}
    (calm : beat.thread = d.thread → ∀ outcome failing,
      beat.event client ≠ .notified d.future outcome failing) :
    d.Quiet client (log ++ [beat]) := by
  intro earlier mem own
  rcases List.mem_append.1 mem with before | now
  · exact quiet earlier before own
  · obtain rfl := List.mem_singleton.1 now
    exact calm own

/-- A frame that completes no future is quiet. -/
theorem Quiet.step {frame : Frame W} {rest : List (Frame W)} (quiet : d.Quiet client log)
    (stack : s.stackOf d.thread = frame :: rest) (notReply : ∀ reply, frame ≠ .deliver reply)
    (notSettle : ∀ f outcome, frame ≠ .settle f outcome)
    (taken : s.step client d.thread choice = some s') :
    d.Quiet client (log ++ [⟨s, d.thread⟩]) := by
  obtain ⟨worker, p, _, _, _, event⟩ := State.own_event stack notReply taken
  refine quiet.snoc fun _ outcome failing notified => ?_
  exact notSettle _ _ (Frame.of_notified (event.symm.trans notified)).1

theorem Stage.others {stack : List (Frame W)} {beat : Beat W} (other : beat.thread ≠ d.thread)
    (stage : d.Stage client s₀ before log left stack) :
    d.Stage client s₀ before (log ++ [beat]) left stack := by
  have more {e : Event} (mem : e ∈ events client log) : e ∈ events client (log ++ [beat]) :=
    mem_events_left mem _
  have calm (quiet : d.Quiet client log) : d.Quiet client (log ++ [beat]) :=
    quiet.snoc fun own => absurd own other
  cases stage with
  | begun quiet => exact .begun (calm quiet)
  | claims requested quiet => exact .claims (more requested) (calm quiet)
  | bars requested quiet bars => exact .bars (more requested) (calm quiet) bars
  | settles job requested quiet => exact .settles job (more requested) (calm quiet)
  | ends ending => exact .ends (ending.mono _)
  | excused excused all => exact .excused (excused.mono _) all
  | replies excused => exact .replies (excused.mono _)

/-! ## Steps -/

section Steps

/-- The client has a handle of the future, or is told that it has none. -/
theorem begun_step (quiet : d.Quiet client log)
    (stack : s.stackOf d.thread = d.operation.begun)
    (taken : s.step client d.thread choice = some s') :
    ∃ left', d.Stage client s₀ before (log ++ [⟨s, d.thread⟩]) left' (s'.stackOf d.thread) ∧
      left' < 9 := by
  have calm := quiet.step stack (by rintro reply ⟨⟩) (by rintro f outcome ⟨⟩) taken
  obtain ⟨worker, p, moved, _, after, event⟩ := State.own_event stack (by rintro reply ⟨⟩) taken
  cases moved
  rw [after]
  cases handle : s.shared.hasHandle d.future with
  | true =>
    refine ⟨8, ?_, Nat.lt_succ_self _⟩
    simp only [if_true]
    have requested : s.event client d.thread = .requested d.future := by
      rw [event]
      simp [Frame.event, Code.event, operation, handle]
    exact .claims (mem_events_last log requested) calm
  | false =>
    refine ⟨1, ?_, by decide⟩
    simp only [Bool.false_eq_true, if_false]
    exact .excused (.unknown ⟨⟨s, d.thread⟩, by simp, rfl, stack, handle⟩) chores_nil

/-- The unit is bound to the future, unless another one is. -/
theorem claim_step (requested : .requested d.future ∈ events client log)
    (there : ∃ u, s.shared.futures.get? d.future = some u) (quiet : d.Quiet client log)
    (stack : s.stackOf d.thread = d.claims) (taken : s.step client d.thread choice = some s') :
    ∃ left', d.Stage client s₀ before (log ++ [⟨s, d.thread⟩]) left' (s'.stackOf d.thread) ∧
      left' < 8 := by
  have calm := quiet.step stack (by rintro reply ⟨⟩) (by rintro f outcome ⟨⟩) taken
  obtain ⟨worker, p, moved, _, after⟩ := State.own_step stack (by rintro reply ⟨⟩) taken
  obtain ⟨u, found⟩ := there
  cases moved
  rw [after]
  cases claimed : u.claimed with
  | false =>
    refine ⟨7, ?_, Nat.lt_succ_self _⟩
    rw [claimStep_of_free found claimed]
    exact .bars (mem_events_left requested _) calm
      (rfl : Frame.barred? (.enter d.placing) = some (d.future, .client d.future))
  | true =>
    refine ⟨1, ?_, by decide⟩
    rw [claimStep_of_claimed found claimed]
    exact .excused (.forestalled ⟨⟨s, d.thread⟩, by simp, rfl, stack, u, found, claimed⟩)
      chores_nil

/-- The unit is refused. -/
theorem bar_step {frame : Frame W} (requested : .requested d.future ∈ events client log)
    (quiet : d.Quiet client log) (bars : frame.barred? = some (d.future, .client d.future))
    (lasts : d.operation.Lasts s)
    (stack : s.stackOf d.thread = frame :: .letGo d.place.held :: d.operation.waits)
    (taken : s.step client d.thread choice = some s') :
    ∃ left', d.Stage client s₀ before (log ++ [⟨s, d.thread⟩]) left' (s'.stackOf d.thread) ∧
      left' < 5 + frame.barLength := by
  have calm := quiet.step stack (by rintro reply rfl; cases bars)
    (by rintro f outcome rfl; cases bars) taken
  obtain ⟨worker, p, moved, _, after⟩ :=
    State.own_step stack (by rintro reply rfl; cases bars) taken
  have requested' : .requested d.future ∈ events client (log ++ [⟨s, d.thread⟩]) :=
    mem_events_left requested _
  rw [after]
  rcases Frame.step_barred lasts.closed.closed bars moved with
    ⟨next, frames, bars', less⟩ | ⟨job, frames⟩
  · rw [frames]
    exact ⟨_, .bars requested' calm bars', Nat.add_lt_add_left less 5⟩
  · rw [frames]
    have pos : 0 < frame.barLength := by cases frame <;> exact Nat.zero_lt_succ _
    exact ⟨5, .settles job requested' calm, Nat.lt_add_of_pos_right pos⟩

variable {workers : Nat} {world : W} {kept : List ObjectId} {threads : List (Code W)}
  (run : State.Log client (State.start workers world kept threads) before s₀)
  (going : State.Log client s₀ log s)

include run going

theorem not_alone_of_complete (quiet : d.Quiet client log) {u : Future W}
    (found : s.shared.futures.get? d.future = some u) (complete : u.state.isSome)
    (pending : d.Pending s₀) : ¬ d.Alone client log := by
  intro alone
  obtain ⟨outcome, state⟩ := Option.isSome_iff_exists.1 complete
  obtain ⟨v, there, none⟩ := pending
  have told := (run.append going).trace.recorded.outcomes d.future
  have untold := run.trace.recorded.outcomes d.future
  rw [there, Option.bind_some, none] at untold
  rw [found, Option.bind_some, state, events_append, outcomes_append, untold,
    Option.toList_none, List.nil_append] at told
  have mem : outcome ∈ outcomes d.future (events client log) := by
    rw [told]
    exact List.mem_singleton_self _
  obtain ⟨failing, notified⟩ := mem_outcomes.1 mem
  obtain ⟨beat, inLog, event⟩ := List.mem_map.1 notified
  by_cases own : beat.thread = d.thread
  · exact quiet beat inLog own outcome failing event
  · refine alone beat ?_ outcome failing event
    exact List.mem_filter.2 ⟨inLog, by simpa [operation] using own⟩

theorem not_own_of_complete {rest : List (Frame W)}
    (stack : s.stackOf d.thread = .settle d.future refusal :: rest) {u : Future W}
    (found : s.shared.futures.get? d.future = some u) (complete : u.state.isSome) :
    .created d.future ∉ events client before := by
  intro created
  have trace := (run.append going).trace
  have inAll : .created d.future ∈ events client (before ++ log) := mem_events_left created _
  have untaken : ¬ Taken (events client (before ++ log)) d.future := by
    rintro ⟨⟨fault, context, opened⟩, _⟩
    cases trace.eq_of_births d.future inAll opened (one_self _) (one_self _)
  have settles : Stake.settle d.future ∈ s.stakes :=
    State.mem_stakes_of_stackOf (stack ▸ List.mem_cons_self) (List.mem_singleton.2 rfl)
  obtain ⟨v, there, none⟩ := trace.pending_of_course d.future untaken
    (weigh_pos_of_mem settles (by simp [Stake.chain, Stake.work]))
  obtain rfl := Option.some.inj (found.symm.trans there)
  rw [none] at complete
  cases complete

/-- The future fails, unless it is complete already. -/
theorem settle_step {job : Job W} (requested : .requested d.future ∈ events client log)
    (quiet : d.Quiet client log)
    (stack : s.stackOf d.thread =
      .settle d.future refusal :: .discard job :: d.passes d.refusedReply)
    (taken : s.step client d.thread choice = some s') :
    ∃ left', d.Stage client s₀ before (log ++ [⟨s, d.thread⟩]) left' (s'.stackOf d.thread) ∧
      left' < 5 := by
  have whole := run.append going
  have handed : .handed d.future ∈ events client (before ++ log) :=
    whole.trace.recorded.requested d.future (mem_events_right _ requested)
  have chores : Chores [(.discard job : Frame W)] := chores_cons.2 ⟨rfl, chores_nil⟩
  have last {e : Event} (event : s.event client d.thread = e) :
      e ∈ events client (log ++ [⟨s, d.thread⟩]) := mem_events_last log event
  obtain ⟨u, found⟩ := whole.trace.exists_record_of_handed d.future handed
  cases state : u.state with
  | none =>
    obtain ⟨callback, own⟩ :=
      Option.isSome_iff_exists.1 (whole.trace.callback_of_pending found state)
    obtain ⟨after, event⟩ := State.settle_pending stack found state own taken
    rw [after]
    cases callback with
    | client notify => exact ⟨4, .ends (.begins chores (last event)), Nat.lt_succ_self _⟩
    | silent => exact ⟨3, .ends (.announces chores (last event)), by decide⟩
    | argument r => exact absurd own (whole.not_argument_of_handed handed found r)
  | some outcome =>
    have complete : u.state.isSome := by rw [state]; rfl
    obtain ⟨after, event⟩ := State.settle_late stack found complete taken
    rw [after]
    refine ⟨2, .excused (.late ⟨last event, ?_, fun pending alone => ?_⟩) chores, by decide⟩
    · exact not_own_of_complete run going stack found complete
    · exact not_alone_of_complete run going quiet found complete pending alone.of_append

/-- A step of the thread brings the reply nearer, unless client code has the thread. -/
theorem Stage.step (stage : d.Stage client s₀ before log left (s.stackOf d.thread))
    (lasts : d.operation.Lasts s) (taken : s.step client d.thread choice = some s') :
    ∃ left', d.Stage client s₀ before (log ++ [⟨s, d.thread⟩]) left' (s'.stackOf d.thread) ∧
      (left' < left ∨ left' = left ∧ d.operation.lends (s.stackOf d.thread) = true) := by
  have nearer {most : Nat} (steps : ∃ left',
      d.Stage client s₀ before (log ++ [⟨s, d.thread⟩]) left' (s'.stackOf d.thread) ∧
        left' < most) : ∃ left',
      d.Stage client s₀ before (log ++ [⟨s, d.thread⟩]) left' (s'.stackOf d.thread) ∧
        (left' < most ∨ left' = most ∧ d.operation.lends (s.stackOf d.thread) = true) := by
    obtain ⟨left', next, less⟩ := steps
    exact ⟨left', next, .inl less⟩
  generalize stack : s.stackOf d.thread = frames at stage
  rw [stack] at nearer
  cases stage with
  | begun quiet => exact nearer (begun_step quiet stack taken)
  | claims requested quiet =>
    have whole := run.append going
    refine nearer (claim_step requested ?_ quiet stack taken)
    exact whole.trace.exists_record_of_handed d.future
      (whole.trace.recorded.requested d.future (mem_events_right _ requested))
  | bars requested quiet bars => exact nearer (bar_step requested quiet bars lasts stack taken)
  | settles job requested quiet =>
    exact nearer (settle_step run going requested quiet stack taken)
  | ends ending =>
    rw [← stack] at ending ⊢
    obtain ⟨left', next, less⟩ := ending.step lasts taken
    exact ⟨left', .ends next, less⟩
  | excused excused all =>
    rcases Operation.chores_step (d := d.operation) lasts all stack taken with
      ⟨chores', left, less, after⟩ | ⟨rfl, after⟩
    · rw [show s'.stackOf d.thread = _ from after]
      exact ⟨_, .excused (excused.mono _) left, .inl (Nat.succ_lt_succ less)⟩
    · rw [show s'.stackOf d.thread = _ from after]
      exact ⟨_, .replies (excused.mono _), .inl (Nat.zero_lt_succ _)⟩
  | replies => exact absurd stack (lasts.unreplied _)

end Steps

/-! ## The unit in a run -/

/-- The thread can go on, unless client code has it. -/
theorem Stage.goes (stage : d.Stage client s₀ before log left (s.stackOf d.thread))
    (unreplied : ∀ reply, s.stackOf d.thread ≠ d.operation.replies reply) (choice : Choice) :
    (∃ s', s.step client d.thread choice = some s') ∨
      d.operation.lends (s.stackOf d.thread) = true := by
  generalize stack : s.stackOf d.thread = frames at stage
  cases stage with
  | begun | claims | settles =>
    exact .inl (State.exists_step stack (by rintro reply ⟨⟩) fun sight => ⟨_, rfl⟩)
  | bars requested quiet bars =>
    exact .inl (State.exists_step stack (by rintro reply rfl; cases bars) fun sight =>
      Frame.barred_can client sight choice s.shared bars)
  | ends ending =>
    rw [← stack] at ending ⊢
    exact ending.goes (unreplied _) choice
  | excused excused all =>
    exact .inl (Operation.chores_can (d := d.operation) client choice all stack)
  | replies => exact absurd stack (unreplied _)

/-- Why the client is replied to. -/
theorem Stage.of_replies
    (stage : d.Stage client s₀ before log left (d.operation.replies reply)) :
    d.Excused client s₀ before log reply ∨ reply = d.refusedReply ∧
      .notified d.future refusal none ∈ events client log ∧
      .announced d.future ∈ events client log := by
  generalize eq : d.operation.replies reply = frames at stage
  cases stage with
  | begun | claims | bars | settles => cases eq
  | ends ending => exact .inr (eq ▸ ending).of_replies
  | excused excused all =>
    have length := congrArg List.length eq
    simp only [Operation.replies, passes, Operation.passes, List.length_append,
      List.length_cons] at length
    omega
  | replies excused =>
    cases eq
    exact .inl excused

section Run

variable {during : List (Beat W)} {workers : Nat} {world : W} {kept : List ObjectId}
  {threads : List (Code W)}
  (run : State.Log client (State.start workers world kept threads) before s₀)

include run

theorem Refused.of_ended (going : State.Log client s₀ during s)
    (notified : .notified d.future refusal none ∈ events client during)
    (announced : .announced d.future ∈ events client during) :
    d.Refused client s₀ before during s := by
  have completed : Completed (events client (before ++ during)) s d.future refusal :=
    (run.append going).trace.completed_of_notified (mem_events_right _ notified)
      (mem_events_right _ announced)
  have ⟨u, found, state, _⟩ := completed
  exact ⟨⟨u, refusal, found, state⟩, fun _ _ => completed, fun _ => completed⟩

theorem Late.refused (late : d.Late client s₀ before during)
    (going : State.Log client s₀ during s) : d.Refused client s₀ before during s where
  terminal := by
    have trace := (run.append going).trace
    have ignored : .ignored d.future ∈ events client (before ++ during) :=
      mem_events_right _ late.ignored
    have told := trace.notifies_of_ignores d.future (tally_pos_of_mem ignored (one_self _))
    rw [tally_notifies, trace.recorded.outcomes] at told
    cases found : s.shared.futures.get? d.future with
    | none => simp [found] at told
    | some u =>
      cases state : u.state with
      | none => simp [found, state] at told
      | some outcome => exact ⟨u, outcome, found, state⟩
  failed pending alone := absurd alone (late.others pending)
  failedOwn created := absurd created late.notOwn

/-- A unit that is scheduled once the runtime is closed for good is refused. -/
theorem declined (closed : s₀.Sealed) (underway : d.operation.Underway client s₀ during s) :
    d.Declined client s₀ before during s := by
  obtain ⟨left, stage, short⟩ := underway.stages run closed
    (P := d.Stage client s₀ before) (.begun fun _ mem => by cases mem)
    Stage.others fun earlier lasts stage taken => stage.step run earlier.going lasts taken
  refine ⟨by omega, fun unreplied => stage.goes unreplied, fun reply replied => ?_⟩
  rw [show s.stackOf d.operation.thread = _ from replied] at stage
  rcases stage.of_replies with excused | ⟨rfl, notified, announced⟩
  · cases excused with
    | unknown unknown => exact .unknown unknown
    | forestalled forestalled => exact .forestalled forestalled
    | late late => exact .refused (late.refused run underway.going)
  · exact .refused (.of_ended run underway.going notified announced)

end Run

end Scheduling
end Strands
