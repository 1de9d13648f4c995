/-
Events: what each step of the machine does, and histories of them.

A step is one event.  Most steps only move a thread along; what is left of them is
`other`.  The remaining events follow futures, jobs and groups: who made a future,
who bound it to a unit, where its job went, when the unit ran, what it ended with,
and when the callback was notified and had returned.

`Trace client start history s` says that `history` are the events of some steps
from `start` to `s`, in order.  Any thread may take the next step, so a statement
about all traces is one about all interleavings.  Traces lead to the reachable states and
to no others.
-/
import Strands.Run

namespace Strands

variable {W : Type}

inductive Event where
  -- Making and handing out futures
  | created (future : FutureId)
  /-- An invocation got its future.  There is a `fault` if its receiver panicked when
  asked for its type.  `context` holds the futures on whose behalf it was made. -/
  | opened (future : FutureId) (fault : Option Panic) (context : List FutureId)
  /-- A future was made for an omitted argument, of a call if there is one. -/
  | argument (future : FutureId) (call : Option FutureId)
  /-- A future was made for the call that stops a listener. -/
  | asked (future : FutureId)
  /-- A client was handed a future that was made for it. -/
  | handed (future : FutureId)
  | forgot (future : FutureId)
  -- Binding a unit to a future
  /-- A client asked to place a unit for a future. -/
  | requested (future : FutureId)
  /-- A future was bound to a unit. -/
  | claimed (future : FutureId) (byClient : Bool) (context : List FutureId)
  /-- A unit was turned away, its future being bound to another. -/
  | rejected (future : FutureId) (byClient : Bool)
  /-- The unit was counted as a job in flight. -/
  | counted (future : FutureId) (byClient : Bool)
  -- Where a job goes
  | queued (future : FutureId)
  /-- The group of a receiver was found or made. -/
  | located (receiver : ObjectId)
  /-- A job was put on the lane of a receiver's group, the token perhaps taken. -/
  | appended (receiver : ObjectId) (group : GroupId) (future : FutureId) (took : Bool)
  /-- A job was refused, the queue being closed. -/
  | refused (future : FutureId)
  /-- A job had no group to go to. -/
  | stranded (future : FutureId)
  /-- The jobs waiting in a group were refused. -/
  | drained (group : GroupId) (futures : List FutureId)
  /-- The queue was closed, and the jobs on it were refused. -/
  | closed (futures : List FutureId)
  /-- The groups of dropped receivers were reclaimed. -/
  | swept
  -- Running a unit and completing its future
  | started (future : FutureId)
  /-- A receiver's group began a turn with its next job. -/
  | turned (receiver : ObjectId) (group : GroupId) (future : FutureId)
  | ended (future : FutureId) (outcome : Outcome)
  /-- A future got its outcome and its callback was notified.  If that was an
  argument's failure, `failing` is the call that fails with it. -/
  | notified (future : FutureId) (outcome : Outcome) (failing : Option FutureId)
  /-- An outcome came too late. -/
  | ignored (future : FutureId)
  | announced (future : FutureId)
  /-- A share of the count of work in flight was given back. -/
  | left
  /-- A group's turn ended with no job waiting. -/
  | turnEnded (group : GroupId)
  -- Completing the arguments of a call
  /-- A call was counted as work in flight. -/
  | tracked (future : FutureId)
  /-- A call failed before it was counted. -/
  | faulted (future : FutureId) (error : DomainError)
  /-- A call failed before any argument was computed. -/
  | failed (future : FutureId) (error : DomainError)
  | placed (future : FutureId)
  /-- Omitted arguments began to be computed. -/
  | resolving
  -- Handles, stopping and answers
  | handleTaken
  /-- A client gave a handle of the scheduler up. -/
  | relinquished
  /-- A handle of the scheduler was dropped, perhaps the last one. -/
  | handleDropped (last : Bool)
  /-- A client asked for a shutdown, or for a stop that ends with one. -/
  | shutdownAsked
  /-- A shutdown began, on a worker or not. -/
  | shutdown (worker : Bool)
  /-- A shutdown found no work in flight. -/
  | idle
  /-- A client was told how placing a unit for a future went. -/
  | answered (future : FutureId) (result : Except ScheduleError Unit)
  | other

/-! ## The event of a step -/

def Asker.isClient : Asker → Bool
  | client _ => true
  | nobody => false

namespace Next

def call? : Next W → Option FutureId
  | place call => some call.future
  | client _ => none

def placedEvent (next : Next W) : Event := (next.call?.map Event.placed).getD .other

def failedEvent (next : Next W) (error : DomainError) : Event :=
  (next.call?.map (Event.failed · error)).getD .other

end Next

/-- The call that fails when a callback is notified of an outcome. -/
def Callback.failing (outcome : Outcome) : Callback W → Option FutureId
  | argument resolution =>
    match outcome with
    | .ok _ => none
    | .error _ => resolution.next.call?
  | _ => none

namespace Site

def answeredEvent (type : ObjectType W) : Site W → Event
  | omitted lookup =>
    match type.omitted lookup.method lookup.args.length with
    | .error e => lookup.next.failedEvent e
    | .ok [] => lookup.next.placedEvent
    | .ok _ => .other
  | expressions _ _ => .resolving
  | _ => .other

def panickedEvent (panic : Panic) : Site W → Event
  | lane call => .faulted call.future (.ofPanic panic)
  | omitted lookup | expressions lookup _ => lookup.next.failedEvent (.ofPanic panic)
  | _ => .other

end Site

def Role.endedEvent (client : Client W) (s : Shared W) (result : Except Panic Outcome) :
    Role W → Event
  | task job => .ended job.future (job.task.conclude (Outcome.ofEnd result))
  | query object site =>
    match result with
    | .ok _ => site.answeredEvent (client.typeOf object s.world)
    | .error panic => site.panickedEvent panic
  | _ => .other

def Request.event (s : Shared W) : Request → Event
  | forget future => .forgot future
  | sweep => .swept
  | takeHandle => if s.handles = 0 then .other else .handleTaken
  | dropHandle => .relinquished
  | stop | shutdown => .shutdownAsked
  | _ => .other

def Code.event (client : Client W) (s : Shared W) (role : Role W) : Code W → Event
  | finish outcome => role.endedEvent client s (.ok outcome)
  | panic payload => role.endedEvent client s (.error payload)
  | ask request _ => request.event s
  | create _ _ _ => .created s.futures.nextId
  | schedule _ _ future _ => if s.hasHandle future then .requested future else .other
  | _ => .other

def Reply.event : Reply → Event
  | future made => .handed made
  | placed made result => .answered made result
  | _ => .other

/-- The futures on whose behalf a frame runs code: that of its unit, or that of its
callback. -/
def Frame.behalf : Frame W → List FutureId
  | running (.task job) _ | waiting (.task job) _ => [job.future]
  | announce future => [future]
  | _ => []

/-- The futures on whose behalf a thread acts, given what it has to go back to. -/
def context (below : List (Frame W)) : List FutureId := below.flatMap Frame.behalf

def Item.futures (items : List (Item W)) : List FutureId :=
  items.filterMap fun
    | .job queued => some queued.future
    | .group _ => none

@[grind =]
def Frame.event (client : Client W) (worker : Bool) (s : Shared W) (below : List (Frame W)) :
    Frame W → Event
  | running role code => code.event client s role
  | deliver reply => reply.event
  | claim p =>
    match s.futures.get? p.future with
    | some { claimed := false, .. } => .claimed p.future p.asker.isClient (context below)
    | _ => .rejected p.future p.asker.isClient
  | enter p => .counted p.future p.asker.isClient
  | push job _ => if s.queue.closed then .refused job.future else .queued job.future
  | checkOpen _ job _ => if s.queue.closed then .refused job.future else .other
  | locate receiver _ _ => .located receiver
  | append receiver group job _ =>
    match s.groups[group]? with
    | some g => .appended receiver group job.future (!g.taken)
    | none => .stranded job.future
  | drain group =>
    match s.groups[group]? with
    | some g => .drained group (g.jobs.map Job.future)
    | none => .drained group []
  | settle future outcome =>
    match s.futures.get? future with
    | some { state := none, callback, .. } =>
      .notified future outcome (callback.bind (Callback.failing outcome))
    | _ => .ignored future
  | announce future => .announced future
  | leave => .left
  | discard _ => .left
  | dropHandle => .handleDropped (s.handles = 1)
  | openCall _ _ fault => .opened s.futures.nextId fault (context below)
  | track call _ => .tracked call.future
  | evaluate r =>
    match r.pending with
    | [] => r.next.placedEvent
    | _ :: _ => .argument s.futures.nextId r.next.call?
  | poll =>
    match s.queue.items with
    | .job job :: _ => .started job.future
    | _ => .other
  | turn group =>
    match s.groups[group]? with
    | some g =>
      match g.jobs with
      | job :: _ => .turned g.object group job.future
      | [] => .turnEnded group
    | none => .turnEnded group
  | endTurn group =>
    match s.groups[group]? with
    | some g => if g.jobs.isEmpty then .turnEnded group else .other
    | none => .turnEnded group
  | shutdown => .shutdown worker
  | awaitIdle => .idle
  | close => .closed (Item.futures s.queue.items)
  | openStop _ _ _ _ => .asked s.futures.nextId
  | _ => .other

def stackEvent (client : Client W) (worker : Bool) (s : Shared W) : List (Frame W) → Event
  | [] => .other
  | .deliver _ :: .letGo _ :: _ => .other
  | frame :: below => frame.event client worker s below

/-! ## Which frame has which event -/

def Event.isManaged : Event → Bool
  | forgot _ | requested _ | swept | ended _ _ | faulted _ _ | failed _ _ | placed _ | resolving
  | handleTaken | relinquished | shutdownAsked | other => true
  | _ => false

/-- The event of a frame, with what the frame finds. -/
inductive Frame.Has (worker : Bool) (s : Shared W) (below : List (Frame W)) :
    Frame W → Event → Prop
  | created {role : Role W} {spec : FutureSpec} {callback : Outcome → Code W}
      {next : Reply → Code W} :
      Has worker s below (.running role (.create spec callback next)) (.created s.futures.nextId)
  | managed {role : Role W} {code : Code W} {e : Event} :
      e.isManaged = true → Has worker s below (.running role code) e
  | handed {f : FutureId} : Has worker s below (.deliver (.future f)) (.handed f)
  | answered {f : FutureId} {result : Except ScheduleError Unit} :
      Has worker s below (.deliver (.placed f result)) (.answered f result)
  | claimed {p : Placing W} {u : Future W} :
      s.futures.get? p.future = some u → u.claimed = false →
      Has worker s below (.claim p) (.claimed p.future p.asker.isClient (context below))
  | rejected {p : Placing W} :
      Has worker s below (.claim p) (.rejected p.future p.asker.isClient)
  | counted {p : Placing W} :
      Has worker s below (.enter p) (.counted p.future p.asker.isClient)
  | queued {job : Job W} {asker : Asker} :
      s.queue.closed = false → Has worker s below (.push job asker) (.queued job.future)
  | refused {job : Job W} {asker : Asker} :
      s.queue.closed = true → Has worker s below (.push job asker) (.refused job.future)
  | turnedAway {receiver : ObjectId} {job : Job W} {asker : Asker} :
      s.queue.closed = true →
      Has worker s below (.checkOpen receiver job asker) (.refused job.future)
  | located {receiver : ObjectId} {job : Job W} {asker : Asker} :
      Has worker s below (.locate receiver job asker) (.located receiver)
  | appended {receiver : ObjectId} {group : GroupId} {job : Job W} {asker : Asker}
      {g : Group W} : s.groups[group]? = some g →
      Has worker s below (.append receiver group job asker)
        (.appended receiver group job.future (!g.taken))
  | stranded {receiver : ObjectId} {group : GroupId} {job : Job W} {asker : Asker} :
      s.groups[group]? = none →
      Has worker s below (.append receiver group job asker) (.stranded job.future)
  | drained {group : GroupId} {futures : List FutureId} :
      Has worker s below (.drain group) (.drained group futures)
  | notified {f : FutureId} {outcome : Outcome} {u : Future W} :
      s.futures.get? f = some u → u.state = none →
      Has worker s below (.settle f outcome)
        (.notified f outcome (u.callback.bind (Callback.failing outcome)))
  | ignored {f : FutureId} {outcome : Outcome} : Has worker s below (.settle f outcome) (.ignored f)
  | announced {f : FutureId} : Has worker s below (.announce f) (.announced f)
  | left : Has worker s below .leave .left
  | discarded {job : Job W} : Has worker s below (.discard job) .left
  | handleDropped {last : Bool} : Has worker s below .dropHandle (.handleDropped last)
  | opened {call : Call W} {metadata : Metadata} {fault : Option Panic} :
      Has worker s below (.openCall call metadata fault)
        (.opened s.futures.nextId fault (context below))
  | tracked {call : OpenCall} {lane : Lane} :
      Has worker s below (.track call lane) (.tracked call.future)
  | placed {r : Resolution W} {e : Event} :
      e.isManaged = true → e = r.next.placedEvent → Has worker s below (.evaluate r) e
  | argument {r : Resolution W} :
      Has worker s below (.evaluate r) (.argument s.futures.nextId r.next.call?)
  | started {job : Job W} : Has worker s below .poll (.started job.future)
  | turned {group : GroupId} {g : Group W} {job : Job W} {rest : List (Job W)} :
      s.groups[group]? = some g → g.jobs = job :: rest →
      Has worker s below (.turn group) (.turned g.object group job.future)
  | unturned {group : GroupId} : Has worker s below (.turn group) (.turnEnded group)
  | turnEnded {group : GroupId} : Has worker s below (.endTurn group) (.turnEnded group)
  | shutdown : Has worker s below .shutdown (.shutdown worker)
  | idle : Has worker s below .awaitIdle .idle
  | closed {futures : List FutureId} : Has worker s below .close (.closed futures)
  | asked {listener : ObjectId} {lane : Lane} {metadata : Metadata} {stopping : Stopping W} :
      Has worker s below (.openStop listener lane metadata stopping) (.asked s.futures.nextId)
  | other {frame : Frame W} : Has worker s below frame .other

section Has

variable (client : Client W) (s : Shared W)

theorem Next.placedEvent_isManaged (next : Next W) : next.placedEvent.isManaged = true := by
  cases next <;> rfl

theorem Next.failedEvent_isManaged (next : Next W) (e : DomainError) :
    (next.failedEvent e).isManaged = true := by
  cases next <;> rfl

theorem Site.answeredEvent_isManaged (type : ObjectType W) (site : Site W) :
    (site.answeredEvent type).isManaged = true := by
  cases site with
  | omitted lookup =>
    simp only [answeredEvent]
    split
    · exact lookup.next.failedEvent_isManaged _
    · exact lookup.next.placedEvent_isManaged
    · rfl
  | _ => rfl

theorem Site.panickedEvent_isManaged (panic : Panic) (site : Site W) :
    (site.panickedEvent panic).isManaged = true := by
  cases site with
  | omitted lookup | expressions lookup pending => exact lookup.next.failedEvent_isManaged _
  | _ => rfl

theorem Role.endedEvent_isManaged (result : Except Panic Outcome) (role : Role W) :
    (role.endedEvent client s result).isManaged = true := by
  cases role with
  | query object site =>
    cases result with
    | ok outcome => exact site.answeredEvent_isManaged _
    | error panic => exact site.panickedEvent_isManaged panic
  | _ => rfl

theorem Request.event_isManaged (request : Request) : (request.event s).isManaged = true := by
  cases request with
  | takeHandle =>
    simp only [event]
    split <;> rfl
  | _ => rfl

theorem Code.has_event (worker : Bool) (below : List (Frame W)) (role : Role W) (code : Code W) :
    (Frame.running role code).Has worker s below (code.event client s role) := by
  cases code with
  | finish outcome | panic payload => exact .managed (role.endedEvent_isManaged client s _)
  | ask request next => exact .managed (request.event_isManaged s)
  | create spec callback next => exact .created
  | schedule place work future next =>
    refine .managed ?_
    simp only [event]
    split <;> rfl
  | _ => exact .other

/-- Every frame has the event that it is said to have. -/
theorem Frame.has_event (worker : Bool) (below : List (Frame W)) (frame : Frame W) :
    frame.Has worker s below (frame.event client worker s below) := by
  cases frame with
  | running role code => exact code.has_event client s worker below role
  | deliver reply =>
    cases reply with
    | future f => exact .handed
    | placed f result => exact .answered
    | _ => exact .other
  | claim p =>
    simp only [event]
    split
    · rename_i found
      exact .claimed found rfl
    · exact .rejected
  | enter p => exact .counted
  | push job asker =>
    cases closed : s.queue.closed with
    | true => simpa [event, closed] using Has.refused closed
    | false => simpa [event, closed] using Has.queued closed
  | checkOpen receiver job asker =>
    cases closed : s.queue.closed with
    | true => simpa [event, closed] using Has.turnedAway closed
    | false => simpa [event, closed] using Has.other
  | locate receiver job asker => exact .located
  | append receiver group job asker =>
    cases found : s.groups[group]? with
    | none => simpa [event, found] using Has.stranded found
    | some g => simpa [event, found] using Has.appended found
  | drain group =>
    simp only [event]
    split <;> exact .drained
  | settle f outcome =>
    simp only [event]
    split
    · rename_i found
      exact .notified found rfl
    · exact .ignored
  | announce f => exact .announced
  | leave => exact .left
  | discard job => exact .discarded
  | dropHandle => exact .handleDropped
  | openCall call metadata fault => exact .opened
  | track call lane => exact .tracked
  | evaluate r =>
    simp only [event]
    split
    · exact .placed r.next.placedEvent_isManaged rfl
    · exact .argument
  | poll =>
    simp only [event]
    split
    · exact .started
    · exact .other
  | turn group =>
    simp only [event]
    split
    · rename_i found
      split
      · rename_i jobs
        exact .turned found jobs
      · exact .unturned
    · exact .unturned
  | endTurn group =>
    simp only [event]
    split
    · split
      · exact .turnEnded
      · exact .other
    · exact .turnEnded
  | shutdown => exact .shutdown
  | awaitIdle => exact .idle
  | close => exact .closed
  | openStop listener lane metadata stopping => exact .asked
  | _ => exact .other

end Has

namespace State

def event (client : Client W) (s : State W) (thread : ThreadId) : Event :=
  match s.threads[thread]? with
  | none => .other
  | some t => stackEvent client t.worker s.shared t.stack

/-! ## Histories -/

/-- The events of steps of any threads, in any order, and the state they lead to. -/
inductive Trace (client : Client W) (start : State W) : List Event → State W → Prop
  | start : Trace client start [] start
  | step {history : List Event} {s s' : State W} {thread : ThreadId} {choice : Choice} :
      Trace client start history s → s.step client thread choice = some s' →
      Trace client start (history ++ [s.event client thread]) s'

theorem Trace.reachable {client : Client W} {start s : State W} {history : List Event}
    (h : Trace client start history s) : Reachable client start s := by
  induction h with
  | start => exact .start
  | step _ taken ih => exact .step ih taken

theorem Reachable.exists_trace {client : Client W} {start s : State W}
    (h : Reachable client start s) : ∃ history, Trace client start history s := by
  induction h with
  | start => exact ⟨[], .start⟩
  | step _ taken ih =>
    obtain ⟨history, trace⟩ := ih
    exact ⟨_, trace.step taken⟩

end State
end Strands
