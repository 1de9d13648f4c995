/-
Whose share the count of work in flight is made up of.

A job is counted from the moment it is bound to its future until it is done with: on the run
queue, on a receiver's lane, while it is run and while it is refused, its callback included.  On
its way it is in somebody's hands: the call that places it has it until it is on the queue or a
lane, and who takes jobs off to refuse them has those whose turn has not come.  A call is counted
from the moment its arguments are asked for until its continuation has placed it and is over, or
was discarded.  `Trace.accounted` says that the count of work in flight is exactly the number of
these.

A share that is about to be given back is held by a frame `leave`, and whose share it is
shows in the frame below it, `Frame.Posted`: in a worker's round it is that of the job that
was run, and else it is that of a call.
-/
import Strands.Proofs.Backing
import Strands.Proofs.Finished
import Strands.Proofs.StackShape

namespace Strands

variable {W : Type}

namespace Frame

/-- Frames of a call that places a job, which they have in hand. -/
def hasJobInHand : Frame W → Bool
  | push _ _ | checkOpen _ _ _ | locate _ _ _ | append _ _ _ _ => true
  | _ => false

def isOfRound : Frame W → Bool
  | poll | endTurn _ => true
  | _ => false

/-- A call goes on here after its continuation: it drops its handle of the scheduler, and if
the continuation was discarded it fails. -/
def isOfCall : Frame W → Bool
  | dropHandle | settle _ _ => true
  | _ => false

/-- A job is being run, or was run and is still counted. -/
def runsJob (below : List (Frame W)) : Frame W → Bool
  | running (.task _) _ | waiting (.task _) _ => true
  | leave => below.head?.any isOfRound
  | _ => false

def refusesJob : Frame W → Bool
  | discard _ => true
  | _ => false

/-- A job that is to be refused waits for its turn. -/
def awaitsRefusal (below : List (Frame W)) : Frame W → Bool
  | settle _ _ => below.head?.any refusesJob
  | _ => false

end Frame

def Next.isOfCall (next : Next W) : Bool := next.call?.isSome

def Site.isOfCall : Site W → Bool
  | omitted lookup | expressions lookup _ => lookup.next.isOfCall
  | _ => false

/-- The continuation of a call is waited for here, or is over and still counted. -/
def Frame.holdsCall (below : List (Frame W)) : Frame W → Bool
  | running (.query _ site) _ | waiting (.query _ site) _ | query _ site => site.isOfCall
  | evaluate r => r.next.isOfCall
  | leave => below.head?.any Frame.isOfCall
  | _ => false

def countStack (held : List (Frame W) → Frame W → Bool) : List (Frame W) → Nat
  | [] => 0
  | frame :: below => (held below frame).toNat + countStack held below

/-- How many jobs of a stack are being refused.  One that waits for its turn lies below the frame
that is to fail its future. -/
def countRefused : List (Frame W) → Nat
  | [] => 0
  | .settle _ _ :: .discard _ :: below => countRefused below
  | frame :: below => frame.refusesJob.toNat + countRefused below

theorem countStack_refusesJob (stack : List (Frame W)) :
    countStack (fun _ => Frame.refusesJob) stack =
      countRefused stack + countStack Frame.awaitsRefusal stack := by
  fun_induction countRefused stack with
  | case1 => rfl
  | case2 f outcome job below ih =>
    simp only [countStack, Frame.refusesJob, Frame.awaitsRefusal, List.head?_cons,
      Option.any_some, Bool.toNat_true, Bool.toNat_false]
    omega
  | case3 frame below other ih =>
    have turn : frame.awaitsRefusal below = false := by
      cases frame with
      | settle f outcome =>
        cases below with
        | nil => rfl
        | cons next rest => cases next <;> first | rfl | exact absurd rfl (other _ _ _ _ rfl)
      | _ => rfl
    simp only [countStack, turn, Bool.toNat_false]
    omega

namespace State

def countFrames (held : List (Frame W) → Frame W → Bool) (s : State W) : Nat :=
  (s.threads.map fun t => countStack held t.stack).sum

/-- Jobs on their way: the calls that place them have not put them on the queue or a lane, or
they were taken off to be refused and wait for their turn. -/
def jobsInHand (s : State W) : Nat :=
  s.countFrames (fun _ => Frame.hasJobInHand) + s.countFrames Frame.awaitsRefusal

/-- Jobs that are being run, until their callbacks have returned. -/
def jobsRunning (s : State W) : Nat := s.countFrames Frame.runsJob

/-- Jobs that are being refused, until their callbacks have returned. -/
def jobsRefused (s : State W) : Nat := (s.threads.map fun t => countRefused t.stack).sum

/-- Calls whose continuation waits for an argument, is being run or is discarded. -/
def callsOpen (s : State W) : Nat :=
  s.countFrames Frame.holdsCall +
    s.shared.futures.countP fun u => (u.callback.bind Callback.call?).isSome

end State

/-! ## Below a share that is given back -/

/-- A unit is run in a worker's round, and a share is given back there or for a call. -/
def Frame.Posted (below : List (Frame W)) : Frame W → Prop
  | running role _ | waiting role _ => role.isTask = true → below.head?.any isOfRound = true
  | leave => below.head?.any isOfRound = true ∨ below.head?.any isOfCall = true
  | _ => True

section Posting

variable {below : List (Frame W)}

attribute [local simp] Stacked Frame.Posted Role.isTask Frame.isOfRound Frame.isOfCall

@[local simp] theorem Asker.posted_answer (asker : Asker) (result : Except ScheduleError Unit) :
    Stacked Frame.Posted (asker.answer result ++ below) ↔ Stacked Frame.Posted below := by
  cases asker <;> simp [answer]

@[local simp] theorem Job.posted_refuse (job : Job W) :
    Stacked Frame.Posted (job.refuse ++ below) ↔ Stacked Frame.Posted below := by
  simp [refuse]

@[local simp] theorem Item.posted_refuse (item : Item W) :
    Stacked Frame.Posted (item.refuse ++ below) ↔ Stacked Frame.Posted below := by
  cases item <;> simp [refuse]

@[local simp] theorem posted_flatMap {α : Type} {frames : α → List (Frame W)}
    (all : ∀ a below, Stacked Frame.Posted (frames a ++ below) ↔ Stacked Frame.Posted below)
    (l : List α) :
    Stacked Frame.Posted (l.flatMap frames ++ below) ↔ Stacked Frame.Posted below := by
  induction l with
  | nil => simp
  | cons a rest ih => rw [List.flatMap_cons, List.append_assoc, all, ih]

@[local simp] theorem Next.posted_resume (next : Next W) (direct : Bool)
    (result : Except DomainError (List Value)) :
    Stacked Frame.Posted (next.resume direct result ++ below) ↔ Stacked Frame.Posted below := by
  cases next <;> cases result <;> cases direct <;> simp [resume]

@[local simp] theorem Next.posted_abandon (next : Next W) (panic : Panic) :
    Stacked Frame.Posted (next.abandon panic ++ below) ↔ Stacked Frame.Posted below := by
  cases next <;> simp [abandon]

@[local simp] theorem Next.posted_takenUp (next : Next W) :
    Stacked Frame.Posted (next.takenUp ++ below) ↔ Stacked Frame.Posted below := by
  cases next <;> simp [takenUp]

@[local simp] theorem Callback.posted_notify (outcome : Outcome) (callback : Callback W) :
    Stacked Frame.Posted (callback.notify outcome ++ below) ↔ Stacked Frame.Posted below := by
  cases callback <;> cases outcome <;> simp [notify]

@[local simp] theorem Invocation.posted_dispatch (inv : Invocation) (mode : Mode)
    (callback : Outcome → Code W) :
    Stacked Frame.Posted (inv.dispatch mode callback ++ below) ↔ Stacked Frame.Posted below := by
  unfold dispatch
  split
  · split <;> simp
  · simp [reject]
  · simp [reject]

variable {client : Client W} {s : Shared W}

theorem Site.posted_answered (object : ObjectId) (type : ObjectType W) (site : Site W)
    (rest : Stacked Frame.Posted below) :
    Stacked Frame.Posted ((site.answered s object type).frames ++ below) := by
  cases site with
  | omitted lookup =>
    simp only [answered]
    split <;> simpa using rest
  | listener stopping =>
    simp only [answered]
    split <;> simpa using rest
  | _ => simpa [answered] using rest

theorem Site.posted_panicked (object : ObjectId) (panic : Panic) (site : Site W)
    (rest : Stacked Frame.Posted below) :
    Stacked Frame.Posted (site.panicked object panic ++ below) := by
  cases site <;> simpa [panicked] using rest

theorem Role.posted_ended (role : Role W) (result : Except Panic Outcome)
    (own : role.isTask = true → below.head?.any Frame.isOfRound = true)
    (rest : Stacked Frame.Posted below) :
    Stacked Frame.Posted ((role.ended client s result).frames ++ below) := by
  cases role with
  | task job => exact ⟨trivial, .inl (own rfl), rest⟩
  | query object site =>
    cases result with
    | ok outcome => exact site.posted_answered object _ rest
    | error panic => exact site.posted_panicked object panic rest
  | _ => cases result <;> simpa [ended] using rest

theorem Request.posted_serve (sight : Sight) (request : Request)
    (rest : Stacked Frame.Posted below) :
    Stacked Frame.Posted ((request.serve client sight s).frames ++ below) := by
  cases request <;> simp only [serve] <;> (try split) <;> simpa using rest

theorem Code.posted_step {sight : Sight} {late : Bool} {role : Role W} {code : Code W}
    {p : Progress W} (own : role.isTask = true → below.head?.any Frame.isOfRound = true)
    (rest : Stacked Frame.Posted below) (taken : code.step client sight late s role = some p) :
    Stacked Frame.Posted (p.frames ++ below) := by
  cases code with
  | finish outcome | panic payload => cases taken; exact role.posted_ended _ own rest
  | await ready next =>
    simp only [step] at taken
    split at taken <;> cases taken
    exact ⟨own, rest⟩
  | awaitAtMost milliseconds ready next =>
    simp only [step] at taken
    split at taken
    · cases taken
      exact ⟨own, rest⟩
    · split at taken <;> cases taken
      exact ⟨own, rest⟩
  | ask request next =>
    cases taken
    show Stacked _ ((_ ++ [_]) ++ below)
    rw [List.append_assoc]
    exact request.posted_serve sight ⟨own, rest⟩
  | invoke mode invocation callback next =>
    cases taken
    show Stacked _ ((_ ++ [_]) ++ below)
    rw [List.append_assoc, Invocation.posted_dispatch]
    exact ⟨own, rest⟩
  | schedule place work future next =>
    cases taken
    refine ⟨?_, trivial, own, rest⟩
    split <;> trivial
  | act update next | addHandler handler next | spawn thread next => cases taken; exact ⟨own, rest⟩
  | create spec callback next => cases taken; exact ⟨trivial, own, rest⟩
  | resolve receiver method args parent continuation next =>
    cases taken
    exact ⟨trivial, trivial, own, rest⟩

theorem posted_of_emptyHanded {frames : List (Frame W)}
    (empty : ∀ frame ∈ frames, frame.isEmptyHanded = true) (rest : Stacked Frame.Posted below) :
    Stacked Frame.Posted (frames ++ below) := by
  refine .append (fun frame mem lower => ?_) rest
  have empty := empty frame mem
  cases frame <;> trivial

theorem settleStep_posted {f : FutureId} {outcome : Outcome} (rest : Stacked Frame.Posted below) :
    Stacked Frame.Posted ((settleStep s f outcome).frames ++ below) := by
  simp only [settleStep]
  split
  · rename_i callback _ _ _ _
    cases callback <;> simpa using rest
  · exact rest

theorem appendStep_posted {group : GroupId} {job : Job W} {asker : Asker}
    (rest : Stacked Frame.Posted below) :
    Stacked Frame.Posted ((appendStep s group job asker).frames ++ below) := by
  simp only [appendStep]
  split
  · dsimp only
    split <;> simpa using rest
  · simpa using rest

theorem drainStep_posted {group : GroupId} (rest : Stacked Frame.Posted below) :
    Stacked Frame.Posted ((drainStep s group).frames ++ below) := by
  simp only [drainStep]
  split
  · exact (posted_flatMap (fun job _ => job.posted_refuse) _).2 rest
  · exact rest

theorem closeStep_posted (rest : Stacked Frame.Posted below) :
    Stacked Frame.Posted ((closeStep s).frames ++ below) := by
  simp only [closeStep]
  rw [List.append_assoc, posted_flatMap fun item _ => item.posted_refuse]
  simpa using rest

theorem openCallStep_posted {call : Call W} {metadata : Metadata} {fault : Option Panic}
    (rest : Stacked Frame.Posted below) :
    Stacked Frame.Posted ((openCallStep s call metadata fault).frames ++ below) := by
  cases fault with
  | some panic => simpa [openCallStep] using rest
  | none => cases mode : call.mode <;> simpa [openCallStep, mode] using rest

theorem turnStep_posted {group : GroupId} (rest : Stacked Frame.Posted below) :
    Stacked Frame.Posted ((turnStep client s group).frames ++ below) := by
  simp only [turnStep]
  split
  · dsimp only
    split <;> simpa [Job.run] using rest
  · exact rest

theorem endTurnStep_posted {group : GroupId} (rest : Stacked Frame.Posted below) :
    Stacked Frame.Posted ((endTurnStep s group).frames ++ below) := by
  simp only [endTurnStep]
  split
  · dsimp only
    split <;> simpa using rest
  · exact rest

theorem awaitListenersStep_posted {stopping : Stopping W} {p : Progress W}
    (rest : Stacked Frame.Posted below) (taken : awaitListenersStep s stopping = some p) :
    Stacked Frame.Posted (p.frames ++ below) := by
  simp only [awaitListenersStep] at taken
  split at taken
  · cases taken
    cases stopping.shutsDown <;> simpa using rest
  · split at taken <;> cases taken
    exact ⟨trivial, rest⟩

/-- A job is run on the frame of its worker's round, and a share is given back on that or
on a frame of its call. -/
theorem Frame.step_posted {sight : Sight} {choice : Choice} {frame : Frame W} {p : Progress W}
    (posted : Stacked Frame.Posted (frame :: below))
    (taken : frame.step client sight choice s = some p) :
    Stacked Frame.Posted (p.frames ++ below) := by
  obtain ⟨own, rest⟩ := posted
  by_cases still : frame.lingers = true
  · exact posted_of_emptyHanded (step_of_lingers still taken).frames rest
  cases frame with
  | running role code => exact Code.posted_step own rest taken
  | waiting role next => cases taken
  | claim p =>
    cases taken
    simp only [claimStep]
    split <;> simpa using rest
  | enter p =>
    cases taken
    simp only [enterStep]
    split <;> simpa using rest
  | push job asker =>
    cases taken
    simp only [pushStep]
    split <;> simpa using rest
  | checkOpen receiver job asker =>
    cases taken
    simp only [checkOpenStep]
    split <;> simpa using rest
  | append receiver group job asker => cases taken; exact appendStep_posted rest
  | submit group asker =>
    cases taken
    simp only [submitStep]
    split <;> simpa using rest
  | drain group => cases taken; exact drainStep_posted rest
  | settle f outcome => cases taken; exact settleStep_posted rest
  | openCall call metadata fault => cases taken; exact openCallStep_posted rest
  | evaluate r =>
    cases taken
    simp only [evaluateStep]
    split <;> simpa using rest
  | poll =>
    cases taken
    simp only [pollStep]
    split <;> simpa [Job.run] using rest
  | turn group => cases taken; exact turnStep_posted rest
  | endTurn group => cases taken; exact endTurnStep_posted rest
  | dropHandle =>
    cases taken
    simp only [dropHandleStep]
    split <;> simpa using rest
  | shutdown =>
    cases taken
    simp only [shutdownStep]
    split
    · exact rest
    · split <;> exact ⟨trivial, rest⟩
  | awaitIdle =>
    simp only [step, awaitIdleStep] at taken
    split at taken <;> cases taken
    exact ⟨trivial, rest⟩
  | close => cases taken; exact closeStep_posted rest
  | runHandlers stopping =>
    cases taken
    simp only [runHandlersStep]
    split <;> simpa using rest
  | askListeners stopping =>
    cases taken
    simp only [askListenersStep]
    split <;> simpa using rest
  | awaitListeners stopping => exact awaitListenersStep_posted rest taken
  | query object site | track call lane | openStop listener lane metadata stopping
  | takeHandlers shutsDown | readListeners stopping | locate receiver job asker =>
    cases taken
    simpa [queryStep, trackStep, openStopStep, takeHandlersStep, readListenersStep, locateStep]
      using rest
  | deliver reply | announce f | leave | discard job => cases taken; exact rest
  | _ => exact absurd rfl still

theorem Move.posted {sight : Sight} {choice : Choice} {top : List (Frame W)} {p : Progress W}
    (move : Move client sight choice s top p) (posted : Stacked Frame.Posted (top ++ below)) :
    Stacked Frame.Posted (p.frames ++ below) := by
  cases move with
  | receive reply role next => exact posted.2
  | pass reply held => exact ⟨trivial, posted.2.2⟩
  | act taken => exact Frame.step_posted posted taken

end Posting

/-! ## What the shares are held for -/

theorem Frame.share_of_posted {below : List (Frame W)} {frame : Frame W}
    (posted : frame.Posted below) :
    weigh Stake.share frame.stakes = frame.hasJobInHand.toNat + (frame.runsJob below).toNat +
      frame.refusesJob.toNat + (frame.holdsCall below).toNat := by
  have call (next : Next W) : weigh Stake.share next.stakes = next.isOfCall.toNat := by
    cases next <;> rfl
  have query (site : Site W) : weigh Stake.share site.stakes = site.isOfCall.toNat := by
    cases site <;> first | rfl | exact call _
  cases frame with
  | running role code | waiting role next =>
    cases role <;> first | rfl | simpa [hasJobInHand, runsJob, refusesJob, holdsCall] using query _
  | deliver reply => cases reply <;> rfl
  | query object site => simpa [hasJobInHand, runsJob, refusesJob, holdsCall] using query site
  | evaluate r =>
    simpa [hasJobInHand, runsJob, refusesJob, holdsCall, Stake.share] using call r.next
  | leave =>
    cases below with
    | nil => rcases posted with none | none <;> cases none
    | cons next rest =>
      cases next <;> first | rfl | (rcases posted with none | none <;> cases none)
  | _ => rfl

theorem share_of_stacked {stack : List (Frame W)} (posted : Stacked Frame.Posted stack) :
    weigh Stake.share (Frame.stakesOf stack) =
      countStack (fun _ => Frame.hasJobInHand) stack + countStack Frame.runsJob stack +
        (countRefused stack + countStack Frame.awaitsRefusal stack) +
        countStack Frame.holdsCall stack := by
  rw [← countStack_refusesJob]
  induction stack with
  | nil => rfl
  | cons frame below ih =>
    have here := Frame.share_of_posted posted.1
    have lower := ih posted.2
    simp only [Frame.stakesOf_cons, weigh_append, countStack]
    omega

theorem share_of_threads {threads : List (Thread W)}
    (posted : ∀ t ∈ threads, Stacked Frame.Posted t.stack) :
    weigh Stake.share (Thread.stakesOf threads) =
      (threads.map fun t => countStack (fun _ => Frame.hasJobInHand) t.stack).sum +
        (threads.map fun t => countStack Frame.runsJob t.stack).sum +
        ((threads.map fun t => countRefused t.stack).sum +
          (threads.map fun t => countStack Frame.awaitsRefusal t.stack).sum) +
        (threads.map fun t => countStack Frame.holdsCall t.stack).sum := by
  induction threads with
  | nil => rfl
  | cons t others ih =>
    have here := share_of_stacked (posted t (by simp))
    have rest := ih fun other mem => posted other (by simp [mem])
    simp only [Thread.stakesOf, List.flatMap_cons, weigh_append, List.map_cons, List.sum_cons]
      at rest ⊢
    omega

namespace Shared

theorem share_of_queue (s : Shared W) :
    weigh Stake.share (s.queue.items.map Item.stake) = s.queuedJobs.length := by
  unfold queuedJobs
  induction s.queue.items with
  | nil => rfl
  | cons item rest ih =>
    cases item with
    | job job => simp [ih, Stake.share]; omega
    | group group => simp [ih, Stake.share]

theorem share_of_lanes (s : Shared W) :
    weigh Stake.share (s.groups.flatMap Group.stakes) = s.laneJobs.length := by
  have lane (jobs : List (Job W)) :
      weigh Stake.share (jobs.map fun job => .job job.future) = jobs.length := by
    induction jobs with
    | nil => rfl
    | cons job rest ih => simp [ih, Stake.share]; omega
  unfold laneJobs
  induction s.groups with
  | nil => rfl
  | cons g rest ih =>
    rw [List.flatMap_cons, weigh_append, ih, List.flatMap_cons, List.length_append]
    exact congrArg (· + _) (lane g.jobs)

theorem share_of_futures (s : Shared W) :
    weigh Stake.share (s.futures.flatMap Future.stakes) =
      s.futures.countP fun u => (u.callback.bind Callback.call?).isSome := by
  induction s.futures with
  | nil => rfl
  | cons u rest ih =>
    have here : weigh Stake.share u.stakes =
        if (u.callback.bind Callback.call?).isSome then 1 else 0 := by
      unfold Future.stakes
      cases u.callback with
      | none => rfl
      | some callback =>
        cases callback with
        | argument r =>
          cases next : r.next <;>
            simp [next, Next.stakes, Next.call?, Callback.call?, Stake.share]
        | _ => rfl
    rw [List.flatMap_cons, weigh_append, ih, here, List.countP_cons]
    omega

end Shared

namespace State

variable {client : Client W} {workers : Nat} {world : W} {kept : List ObjectId}
  {threads : List (Code W)} {s : State W} {history : List Event}

theorem Trace.posted (trace : Trace client (State.start workers world kept threads) history s) :
    ∀ t ∈ s.threads, Stacked Frame.Posted t.stack := by
  refine trace.keeps (fun _ s => ∀ t ∈ s.threads, Stacked Frame.Posted t.stack)
    (stacked_start trivial fun _ _ own => by cases own) ?_
  rintro before e ⟨s, s', thread, choice, trace, taken, rfl⟩ ih
  obtain ⟨acted⟩ := step_cases taken
  exact stacked_step acted ih (fun _ _ posted => posted)
    (fun stacked _ => acted.move.posted stacked) fun _ _ own => by cases own

theorem Trace.count_law
    (trace : Trace client (State.start workers world kept threads) history s) :
    s.shared.inFlight = s.shared.queuedJobs.length + s.shared.laneJobs.length +
      s.jobsRunning + s.jobsRefused + s.callsOpen + s.jobsInHand := by
  have shares := trace.share_law
  have onThreads := share_of_threads trace.posted
  have queued := s.shared.share_of_queue
  have onLanes := s.shared.share_of_lanes
  have pending := s.shared.share_of_futures
  simp only [stakes, Shared.stakes, weigh_append] at shares
  simp only [jobsInHand, jobsRunning, jobsRefused, callsOpen, countFrames]
  omega

end State

/-! ## The account -/

namespace Event

/-- A share is taken for a job, or for a call. -/
def takesShare : Event → Nat
  | counted _ _ | tracked _ => 1
  | _ => 0

def givesShare : Event → Nat
  | left => 1
  | _ => 0

def admits (f : FutureId) : Event → Nat
  | tracked g => one f g
  | _ => 0

def concludes (f : FutureId) : Event → Nat
  | placed g | failed g _ | notified _ _ (some g) => one f g
  | _ => 0

theorem of_concludes {f : FutureId} {e : Event} (h : 0 < e.concludes f) :
    e = .placed f ∨ (∃ error, e = .failed f error) ∨
      ∃ d outcome, e = .notified d outcome (some f) := by
  cases e with
  | placed g => exact .inl (by rw [one_pos h])
  | failed g error => exact .inr (.inl ⟨error, by rw [one_pos h]⟩)
  | notified d outcome failing =>
    cases failing with
    | none => cases h
    | some g => exact .inr (.inr ⟨d, outcome, by rw [one_pos h]⟩)
  | _ => cases h

end Event

def Stake.calls (f : FutureId) : Stake → Nat
  | call g => one f g
  | _ => 0

/-- The continuation of a call is over: the call was placed, or it failed. -/
def Concluded (history : List Event) (f : FutureId) : Prop :=
  .placed f ∈ history ∨ (∃ error, .failed f error ∈ history) ∨
    ∃ d outcome, .notified d outcome (some f) ∈ history

/-- The count of work in flight is accounted for. -/
structure Accounted (history : List Event) (s : State W) : Prop where
  /-- It is the number of jobs that are not done with and of calls whose continuation is not
  over. -/
  count : s.shared.inFlight = s.shared.queuedJobs.length + s.shared.laneJobs.length +
    s.jobsRunning + s.jobsRefused + s.callsOpen + s.jobsInHand
  /-- No share is given back that was not taken. -/
  balance : s.shared.inFlight + tally Event.givesShare history = tally Event.takesShare history
  /-- While it is zero every job that was counted is complete, and the continuation of every
  call that was counted is over. -/
  idle : s.shared.inFlight = 0 →
    (∀ f byClient, .counted f byClient ∈ history → ∃ outcome, Completed history s f outcome) ∧
    ∀ f, .tracked f ∈ history → Concluded history f
  /-- From the moment an invocation returns a future until the future's callback has returned
  it is not zero, but while a client that schedules the future itself is about to be counted. -/
  sheltered : ∀ f, Returned history f → .announced f ∉ history → ¬ Binding s f →
    0 < s.shared.inFlight

namespace State

variable {client : Client W} {workers : Nat} {world : W} {kept : List ObjectId}
  {threads : List (Code W)} {s : State W} {history : List Event}

namespace Trace

variable (trace : Trace client (State.start workers world kept threads) history s)

include trace

section Laws

attribute [local simp] Stake.share Stake.calls Event.givesShare Event.takesShare Event.admits
  Event.concludes

/-- The count of work in flight is what was taken of it and not given back. -/
theorem flight_law :
    s.shared.inFlight + tally Event.givesShare history = tally Event.takesShare history := by
  rw [← trace.share_law]
  refine trace.law _ _ _ fun e => ?_
  cases e with
  | opened g fault context => cases fault <;> simp
  | appended r group g took => cases took <;> simp
  | notified g outcome failing => cases failing <;> simp
  | _ => simp

theorem conclusion_law (f : FutureId) :
    weigh (Stake.calls f) s.stakes + tally (Event.concludes f) history =
      tally (Event.admits f) history := by
  refine trace.law _ _ _ fun e => ?_
  cases e with
  | opened g fault context => cases fault <;> simp
  | appended r group g took => cases took <;> simp
  | notified g outcome failing => cases failing <;> simp
  | _ => simp

end Laws

theorem concluded_of_idle (idle : s.shared.inFlight = 0) {f : FutureId}
    (tracked : .tracked f ∈ history) : Concluded history f := by
  have none : weigh (Stake.calls f) s.stakes = 0 := trace.weigh_of_share idle fun stake => by
    cases stake with
    | call g => exact one_le f g
    | _ => exact Nat.zero_le _
  have law := trace.conclusion_law f
  have admits := tally_pos_of_mem (n := Event.admits f) tracked (one_self f)
  have concludes : 0 < tally (Event.concludes f) history := by omega
  obtain ⟨e, mem, pos⟩ := tally_pos concludes
  rcases Event.of_concludes pos with rfl | ⟨error, rfl⟩ | ⟨d, outcome, rfl⟩
  · exact .inl mem
  · exact .inr (.inl ⟨error, mem⟩)
  · exact .inr (.inr ⟨d, outcome, mem⟩)

/-- The count of work in flight is accounted for in every state that can be reached. -/
theorem accounted : Accounted history s where
  count := trace.count_law
  balance := trace.flight_law
  idle idle :=
    ⟨fun _ _ counted => trace.completed_of_backed idle counted,
      fun _ tracked => trace.concluded_of_idle idle tracked⟩
  sheltered f returned unheard free := by
    refine Nat.pos_of_ne_zero fun idle => unheard ?_
    obtain ⟨outcome, u, found, _, notified, _⟩ := trace.completed_of_returned idle returned
      fun bound => free (trace.binding_of_bound bound)
    exact (trace.recorded.announced f u found).1 notified

end Trace

/-- A call whose argument is yet to be computed, and a job of the client's own.  The client
goes on until it has scheduled that, and nothing runs before. -/
theorem accounted_callAndUnit :
    let run := (State.start 1 () [1, 2] [callAndUnit]).replay (Sample.client Sample.value)
      (List.replicate 60 1)
    Accounted run.1 run.2 ∧ run.2.shared.inFlight = 3 ∧ run.2.shared.queuedJobs.length = 2 ∧
      run.2.callsOpen = 1 :=
  ⟨(trace_replay _ _ _).accounted, rfl, rfl, rfl⟩

/-- A client schedules a unit that shuts the scheduler down, and two more. -/
def refusals : Code Unit :=
  Sample.create fun a => Sample.create fun b => Sample.create fun c =>
    .schedule .free (fun _ => .ask .shutdown fun _ => Sample.done) a fun _ =>
      Sample.schedule .free b (Sample.schedule .free c Sample.done)

/-- A schedule call is about to put its job on the queue. -/
def scheduling : State Unit :=
  run (Sample.client Sample.value) 5 1
    (State.start 1 () [1, 2] [Sample.create fun a => Sample.schedule .free a Sample.done])

/-- The callback of one refused job is run, and another one waits for its turn. -/
def refusing : State Unit :=
  run (Sample.client Sample.value) 33 1 (State.start 1 () [1, 2] [refusals])

/-- The count is more than the jobs that are queued, run or refused and the calls that are open,
while a job is on its way to the queue or to being refused.  It is zero while the future of a call
is pending that a client is about to bind. -/
theorem count_exceeds :
    (Reachable (Sample.client Sample.value)
        (State.start 1 () [1, 2] [Sample.create fun a => Sample.schedule .free a Sample.done])
        scheduling ∧
      scheduling.shared.inFlight = 1 ∧
      scheduling.shared.queuedJobs.length + scheduling.shared.laneJobs.length +
        scheduling.jobsRunning + scheduling.jobsRefused + scheduling.callsOpen = 0) ∧
    (Reachable (Sample.client Sample.value) (State.start 1 () [1, 2] [refusals]) refusing ∧
      refusing.shared.inFlight = 3 ∧
      refusing.shared.queuedJobs.length + refusing.shared.laneJobs.length +
        refusing.jobsRunning + refusing.jobsRefused + refusing.callsOpen = 2) ∧
    ∃ history s, Trace (Sample.client Sample.value) (State.start 1 () [1, 2] [boundCall]) history s ∧
      s.shared.inFlight = 0 ∧ Returned history 1 ∧
      (s.shared.futures.get? 1).map (fun u => (u.state, u.notified)) = some (none, false) :=
  ⟨⟨reachable_run .start 5 1, rfl, rfl⟩, ⟨reachable_run .start 33 1, rfl, rfl⟩, _, _,
    trace_replay _ _ overtaken, rfl,
    ⟨⟨none, [], List.mem_of_getElem? (i := 3) rfl⟩, List.mem_of_getElem? (i := 17) rfl⟩, rfl⟩

end State
end Strands
