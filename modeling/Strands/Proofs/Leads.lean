/-
What may come after a frame.

`Frame.LeadsTo` lists, for each frame, the frames that its step may leave, and
`Frame.step_leads` says of every step that it leaves no others.  What is said elsewhere of
the frames that some steps leave is read off this list, by cases on it.
-/
import Strands.Step

namespace Strands

variable {W : Type}

def Code.isEnd : Code W → Bool
  | finish _ | panic _ => true
  | _ => false

def Code.mayLeave (code : Code W) : Frame W → Bool
  | .running _ _ | .waiting _ _ | .deliver _ | .letGo _ | .claim _ | .leave | .dropHandle
  | .query _ _ | .openCall _ _ _ | .track _ _ | .evaluate _ | .shutdown | .takeHandlers _
  | .runHandlers _ | .askListeners _ | .openStop _ _ _ _ | .awaitFuture _
  | .awaitFutureAtMost _ _ => true
  | .settle _ _ => code.isEnd
  | _ => false

namespace Frame

def refuses : Frame W → Bool
  | push _ _ | checkOpen _ _ _ | append _ _ _ _ | drain _ | close => true
  | _ => false

/-- The frames that a frame may leave.  `isOpen` says whether the run queue is open. -/
inductive LeadsTo (isOpen : Bool) : Frame W → Frame W → Prop
  -- Anything may be answered, and let go of.
  | deliver {frame : Frame W} {reply : Reply} : LeadsTo isOpen frame (.deliver reply)
  | letGo {frame : Frame W} {held : Holding} : LeadsTo isOpen frame (.letGo held)
  -- Managed code
  | code {role : Role W} {code : Code W} {next : Frame W} :
      code.mayLeave next = true → LeadsTo isOpen (.running role code) next
  -- Placing a unit of work
  | enter {p : Placing W} : LeadsTo isOpen (.claim p) (.enter p)
  | push {p : Placing W} {job : Job W} {asker : Asker} :
      LeadsTo isOpen (.enter p) (.push job asker)
  | checkOpen {p : Placing W} {r : ObjectId} {job : Job W} {asker : Asker} :
      LeadsTo isOpen (.enter p) (.checkOpen r job asker)
  | locate {r : ObjectId} {job : Job W} {asker : Asker} :
      isOpen = true → LeadsTo isOpen (.checkOpen r job asker) (.locate r job asker)
  | append {r : ObjectId} {g : GroupId} {job : Job W} {asker : Asker} :
      LeadsTo isOpen (.locate r job asker) (.append r g job asker)
  | submit {r : ObjectId} {g : GroupId} {job : Job W} {asker : Asker} :
      LeadsTo isOpen (.append r g job asker) (.submit g asker)
  | ringPushed {job : Job W} {asker : Asker} : LeadsTo isOpen (.push job asker) .ring
  | ringSubmitted {g : GroupId} {asker : Asker} : LeadsTo isOpen (.submit g asker) .ring
  | drain {g : GroupId} {asker : Asker} : LeadsTo isOpen (.submit g asker) (.drain g)
  | refuse {frame : Frame W} {f : FutureId} {outcome : Outcome} :
      frame.refuses = true → LeadsTo isOpen frame (.settle f outcome)
  | discard {frame : Frame W} {job : Job W} :
      frame.refuses = true → LeadsTo isOpen frame (.discard job)
  -- Completing a future
  | announce {f : FutureId} {outcome : Outcome} : LeadsTo isOpen (.settle f outcome) (.announce f)
  | notify {f : FutureId} {outcome heard : Outcome} {code : Code W} :
      LeadsTo isOpen (.settle f outcome) (.running (.callback heard) code)
  | evaluate {f : FutureId} {outcome : Outcome} {r : Resolution W} :
      LeadsTo isOpen (.settle f outcome) (.evaluate r)
  | fail {f g : FutureId} {outcome failure : Outcome} :
      LeadsTo isOpen (.settle f outcome) (.settle g failure)
  | tell {f : FutureId} {outcome : Outcome} {code : Code W} :
      LeadsTo isOpen (.settle f outcome) (.running .continued code)
  | leave {f : FutureId} {outcome : Outcome} : LeadsTo isOpen (.settle f outcome) .leave
  | dropHandle {f : FutureId} {outcome : Outcome} : LeadsTo isOpen (.settle f outcome) .dropHandle
  -- Dispatching a call
  | claim {r : Resolution W} {p : Placing W} : LeadsTo isOpen (.evaluate r) (.claim p)
  | handOver {r : Resolution W} {code : Code W} :
      LeadsTo isOpen (.evaluate r) (.running .continued code)
  | leavePlaced {r : Resolution W} : LeadsTo isOpen (.evaluate r) .leave
  | dropPlaced {r : Resolution W} : LeadsTo isOpen (.evaluate r) .dropHandle
  | ask {object : ObjectId} {site : Site W} {code : Code W} :
      LeadsTo isOpen (.query object site) (.running (.query object site) code)
  | fault {call : Call W} {metadata : Metadata} {panic : Option Panic} {f : FutureId}
      {outcome : Outcome} : LeadsTo isOpen (.openCall call metadata panic) (.settle f outcome)
  | track {call : Call W} {metadata : Metadata} {panic : Option Panic} {opened : OpenCall}
      {lane : Lane} : LeadsTo isOpen (.openCall call metadata panic) (.track opened lane)
  | askLane {call : Call W} {metadata : Metadata} {panic : Option Panic} {object : ObjectId}
      {opened : OpenCall} :
      LeadsTo isOpen (.openCall call metadata panic) (.query object (.lane opened))
  | askOmitted {opened : OpenCall} {lane : Lane} {object : ObjectId} {lookup : Lookup W} :
      LeadsTo isOpen (.track opened lane) (.query object (.omitted lookup))
  -- A worker
  | poll : LeadsTo isOpen .poll .poll
  | runFree {job : Job W} {code : Code W} : LeadsTo isOpen .poll (.running (.task job) code)
  | turn {g : GroupId} : LeadsTo isOpen .poll (.turn g)
  | runNext {g : GroupId} {job : Job W} {code : Code W} :
      LeadsTo isOpen (.turn g) (.running (.task job) code)
  | endTurn {g : GroupId} : LeadsTo isOpen (.turn g) (.endTurn g)
  | submitAgain {g : GroupId} : LeadsTo isOpen (.endTurn g) (.submit g .nobody)
  | checkFlag : LeadsTo isOpen .poll .checkFlag
  | lockBell : LeadsTo isOpen .checkFlag .lockBell
  | recheckQueue : LeadsTo isOpen .lockBell .recheckQueue
  | recheckFlag : LeadsTo isOpen .recheckQueue .recheckFlag
  | settleDown : LeadsTo isOpen .recheckFlag .settleDown
  | rest : LeadsTo isOpen .settleDown .rest
  | getUp : LeadsTo isOpen .rest .getUp
  | pollFilled : LeadsTo isOpen .recheckQueue .poll
  | pollRung : LeadsTo isOpen .settleDown .poll
  | pollRested : LeadsTo isOpen .getUp .poll
  -- Shutting down
  | shutdownDropped : LeadsTo isOpen .dropHandle .shutdown
  | shutdownStopped {stopping : Stopping W} : LeadsTo isOpen (.awaitListeners stopping) .shutdown
  | awaitIdle : LeadsTo isOpen .shutdown .awaitIdle
  | close : LeadsTo isOpen .shutdown .close
  | closeIdle : LeadsTo isOpen .awaitIdle .close
  | drainClosed {g : GroupId} : LeadsTo isOpen .close (.drain g)
  | raiseFlag : LeadsTo isOpen .close .raiseFlag
  | ringAll : LeadsTo isOpen .close .ringAll
  | lockCrew : LeadsTo isOpen .close .lockCrew
  | join {workers : List ThreadId} : LeadsTo isOpen .lockCrew (.join workers)
  | joinOthers {workers others : List ThreadId} : LeadsTo isOpen (.join workers) (.join others)
  -- Stopping gracefully
  | readListeners {shutsDown : Bool} {stopping : Stopping W} :
      LeadsTo isOpen (.takeHandlers shutsDown) (.readListeners stopping)
  | runHandlers {stopping taken : Stopping W} :
      LeadsTo isOpen (.readListeners stopping) (.runHandlers taken)
  | runHandler {stopping others : Stopping W} {code : Code W} :
      LeadsTo isOpen (.runHandlers stopping) (.running (.handler others) code)
  | askListeners {stopping : Stopping W} :
      LeadsTo isOpen (.runHandlers stopping) (.askListeners stopping)
  | askListener {stopping others : Stopping W} {object : ObjectId} :
      LeadsTo isOpen (.askListeners stopping) (.query object (.listener others))
  | claimStop {listener : ObjectId} {lane : Lane} {metadata : Metadata} {stopping : Stopping W}
      {p : Placing W} : LeadsTo isOpen (.openStop listener lane metadata stopping) (.claim p)
  | askOthers {listener : ObjectId} {lane : Lane} {metadata : Metadata}
      {stopping asked : Stopping W} :
      LeadsTo isOpen (.openStop listener lane metadata stopping) (.askListeners asked)
  | awaitListeners {stopping : Stopping W} :
      LeadsTo isOpen (.askListeners stopping) (.awaitListeners stopping)
  | awaitOthers {stopping others : Stopping W} :
      LeadsTo isOpen (.awaitListeners stopping) (.awaitListeners others)

def LeadsOn (isOpen : Bool) (frame : Frame W) (frames : List (Frame W)) : Prop :=
  ∀ next ∈ frames, frame.LeadsTo isOpen next

section LeadsOn

variable {isOpen : Bool} {frame next : Frame W} {frames others : List (Frame W)}

@[simp] theorem leadsOn_nil : frame.LeadsOn isOpen [] := fun _ mem => by cases mem

@[simp] theorem leadsOn_cons :
    frame.LeadsOn isOpen (next :: frames) ↔
      frame.LeadsTo isOpen next ∧ frame.LeadsOn isOpen frames := List.forall_mem_cons

@[simp] theorem leadsOn_append :
    frame.LeadsOn isOpen (frames ++ others) ↔
      frame.LeadsOn isOpen frames ∧ frame.LeadsOn isOpen others := List.forall_mem_append

theorem leadsOn_flatMap {α : Type} {f : α → List (Frame W)} {l : List α}
    (all : ∀ a, frame.LeadsOn isOpen (f a)) : frame.LeadsOn isOpen (l.flatMap f) := by
  intro next mem
  obtain ⟨a, _, inA⟩ := List.mem_flatMap.1 mem
  exact all a next inA

end LeadsOn
end Frame

/-! ## What steps leave -/

section Steps

open Frame.LeadsTo

attribute [local simp] Frame.LeadsTo.deliver Frame.LeadsTo.letGo Code.mayLeave

variable {isOpen : Bool} {frame : Frame W} {role : Role W} {code : Code W}

@[simp] theorem Asker.leadsOn_answer (asker : Asker) (result : Except ScheduleError Unit) :
    frame.LeadsOn isOpen (asker.answer result) := by
  cases asker <;> simp [answer]

theorem Job.leadsOn_refuse (refuses : frame.refuses = true) (job : Job W) :
    frame.LeadsOn isOpen job.refuse :=
  Frame.leadsOn_cons.2 ⟨.refuse refuses, Frame.leadsOn_cons.2 ⟨.discard refuses, by simp⟩⟩

theorem Item.leadsOn_refuse (item : Item W) : Frame.close.LeadsOn isOpen item.refuse := by
  cases item with
  | job job => exact Job.leadsOn_refuse rfl job
  | group g => simp [refuse, drainClosed]

theorem Callback.leadsOn_notify (f : FutureId) (outcome : Outcome) (callback : Callback W) :
    (Frame.settle f outcome).LeadsOn isOpen (callback.notify outcome) := by
  cases callback with
  | argument r =>
    cases outcome with
    | ok value => simp [notify, evaluate]
    | error e =>
      cases next : r.next <;> simp [notify, Next.resume, next, fail, tell, leave, dropHandle]
  | _ => simp [Callback.notify, Frame.LeadsTo.notify]

/-! ### Managed code -/

theorem Next.mayLeave_resume (ends : code.isEnd = true) (next : Next W) (direct : Bool)
    (result : Except DomainError (List Value)) :
    ∀ frame ∈ next.resume direct result, code.mayLeave frame = true := by
  cases next <;> cases result <;> simp [resume, ends]

theorem Next.mayLeave_abandon (ends : code.isEnd = true) (next : Next W) (panic : Panic) :
    ∀ frame ∈ next.abandon panic, code.mayLeave frame = true := by
  cases next <;> simp [abandon, ends]

theorem Invocation.mayLeave_dispatch (inv : Invocation) (mode : Mode)
    (callback : Outcome → Code W) :
    ∀ frame ∈ inv.dispatch mode callback, code.mayLeave frame = true := by
  unfold dispatch
  split
  · split <;> simp
  · simp [reject]
  · simp [reject]

variable {client : Client W} {s : Shared W}

theorem Site.mayLeave_answered (ends : code.isEnd = true) (object : ObjectId)
    (type : ObjectType W) (site : Site W) :
    ∀ frame ∈ (site.answered s object type).frames, code.mayLeave frame = true := by
  cases site with
  | omitted lookup =>
    simp only [answered]
    split
    · exact List.forall_mem_append.2 ⟨lookup.next.mayLeave_resume ends true _, by simp⟩
    · exact lookup.next.mayLeave_resume ends true _
    · simp
  | expressions lookup pending => cases next : lookup.next <;> simp [answered, Next.takenUp, next]
  | listener stopping =>
    simp only [answered]
    split <;> simp
  | _ => simp [answered]

theorem Role.mayLeave_ended (ends : code.isEnd = true) (role : Role W)
    (result : Except Panic Outcome) :
    ∀ frame ∈ (role.ended client s result).frames, code.mayLeave frame = true := by
  cases role with
  | query object site =>
    cases result with
    | ok outcome => exact site.mayLeave_answered ends object _
    | error panic =>
      cases site with
      | omitted lookup | expressions lookup pending => exact lookup.next.mayLeave_abandon ends panic
      | _ => simp [ended, Site.panicked, ends]
  | continuation | call receiver args => cases result <;> simp [ended]
  | _ => simp [ended, ends]

theorem Request.mayLeave_serve (sight : Sight) (request : Request) :
    ∀ frame ∈ (request.serve client sight s).frames, code.mayLeave frame = true := by
  cases request with
  | view future | wait future | waitAtMost future milliseconds | takeHandle =>
    simp only [serve]
    split <;> simp
  | _ => simp [serve]

theorem Code.mayLeave_step {sight : Sight} {late : Bool} {p : Progress W}
    (taken : code.step client sight late s role = some p) :
    ∀ frame ∈ p.frames, code.mayLeave frame = true := by
  cases code with
  | finish outcome | panic payload => cases taken; exact role.mayLeave_ended rfl _
  | await ready next =>
    simp only [step] at taken
    split at taken <;> cases taken
    simp
  | awaitAtMost milliseconds ready next =>
    simp only [step] at taken
    split at taken
    · cases taken
      simp
    · split at taken <;> cases taken
      simp
  | ask request next =>
    cases taken
    exact List.forall_mem_append.2 ⟨request.mayLeave_serve sight, by simp⟩
  | schedule place work future next =>
    cases taken
    cases had : s.hasHandle future <;> simp
  | invoke mode invocation callback next =>
    cases taken
    exact List.forall_mem_append.2 ⟨invocation.mayLeave_dispatch mode callback, by simp⟩
  | _ => cases taken; simp

attribute [local simp] enter push checkOpen append submit ringPushed ringSubmitted drain announce
  claim handOver leavePlaced dropPlaced ask fault track askLane askOmitted poll runFree turn runNext
  endTurn submitAgain checkFlag lockBell recheckQueue recheckFlag settleDown rest getUp pollFilled
  pollRung pollRested shutdownDropped shutdownStopped awaitIdle close closeIdle raiseFlag ringAll
  lockCrew join joinOthers readListeners runHandlers runHandler askListeners askListener claimStop
  askOthers awaitListeners awaitOthers

variable {p : Progress W}

/-! ### Placing units of work and completing futures -/

theorem claimStep_leads (placing : Placing W) :
    (Frame.claim placing).LeadsOn isOpen (claimStep s placing).frames := by
  simp only [claimStep]
  split <;> simp

theorem enterStep_leads (placing : Placing W) :
    (Frame.enter placing).LeadsOn isOpen (enterStep s placing).frames := by
  simp only [enterStep]
  split <;> simp

theorem pushStep_leads (job : Job W) (asker : Asker) :
    (Frame.push job asker).LeadsOn isOpen (pushStep s job asker).frames := by
  simp only [pushStep]
  split
  · simp
  · exact Frame.leadsOn_append.2 ⟨job.leadsOn_refuse rfl, asker.leadsOn_answer _⟩

/-- A group is looked for only where the queue was found open. -/
theorem checkOpenStep_leads (receiver : ObjectId) (job : Job W) (asker : Asker) :
    (Frame.checkOpen receiver job asker).LeadsOn (!s.queue.closed)
      (checkOpenStep s receiver job asker).frames := by
  simp only [checkOpenStep]
  cases s.queue.closed with
  | true => exact Frame.leadsOn_append.2 ⟨job.leadsOn_refuse rfl, asker.leadsOn_answer _⟩
  | false => simp [locate]

theorem appendStep_leads (receiver : ObjectId) (group : GroupId) (job : Job W) (asker : Asker) :
    (Frame.append receiver group job asker).LeadsOn isOpen
      (appendStep s group job asker).frames := by
  simp only [appendStep]
  split
  · dsimp only
    split <;> simp
  · exact Frame.leadsOn_append.2 ⟨job.leadsOn_refuse rfl, asker.leadsOn_answer _⟩

theorem submitStep_leads (group : GroupId) (asker : Asker) :
    (Frame.submit group asker).LeadsOn isOpen (submitStep s group asker).frames := by
  simp only [submitStep]
  split <;> simp

theorem drainStep_leads (group : GroupId) :
    (Frame.drain group).LeadsOn isOpen (drainStep s group).frames := by
  simp only [drainStep]
  split
  · exact Frame.leadsOn_flatMap (Job.leadsOn_refuse rfl)
  · simp

theorem settleStep_leads (f : FutureId) (outcome : Outcome) :
    (Frame.settle f outcome).LeadsOn isOpen (settleStep s f outcome).frames := by
  simp only [settleStep]
  split
  · rename_i callback _ _ _ _
    cases callback <;> simp [Callback.leadsOn_notify]
  · simp

theorem dropHandleStep_leads : Frame.dropHandle.LeadsOn isOpen (dropHandleStep s).frames := by
  simp only [dropHandleStep]
  split <;> simp

theorem ringStep_leads (ring : Bell → Bell) (taken : ringStep s ring = some p) :
    frame.LeadsOn isOpen p.frames := by
  simp only [ringStep] at taken
  split at taken <;> cases taken
  simp

theorem awaitFutureStep_leads {future : FutureId} {late : Bool}
    (taken : awaitFutureStep s future late = some p) : frame.LeadsOn isOpen p.frames := by
  simp only [awaitFutureStep] at taken
  split at taken
  · cases taken
    simp
  · split at taken <;> cases taken
    simp

/-! ### Dispatching calls -/

theorem openCallStep_leads (call : Call W) (metadata : Metadata) (fault : Option Panic) :
    (Frame.openCall call metadata fault).LeadsOn isOpen
      (openCallStep s call metadata fault).frames := by
  cases fault <;> cases mode : call.mode <;> simp [openCallStep, mode]

theorem evaluateStep_leads (r : Resolution W) :
    (Frame.evaluate r).LeadsOn isOpen (evaluateStep s r).frames := by
  simp only [evaluateStep]
  split
  · cases next : r.next <;> simp [Next.resume]
  · simp

/-! ### Workers -/

theorem pollStep_leads : Frame.poll.LeadsOn isOpen (pollStep client s).frames := by
  simp only [pollStep]
  split <;> simp [Job.run]

theorem turnStep_leads (group : GroupId) :
    (Frame.turn group).LeadsOn isOpen (turnStep client s group).frames := by
  simp only [turnStep]
  split
  · dsimp only
    split <;> simp [Job.run]
  · simp

theorem endTurnStep_leads (group : GroupId) :
    (Frame.endTurn group).LeadsOn isOpen (endTurnStep s group).frames := by
  simp only [endTurnStep]
  split
  · dsimp only
    split <;> simp
  · simp

theorem checkFlagStep_leads : Frame.checkFlag.LeadsOn isOpen (checkFlagStep s).frames := by
  simp only [checkFlagStep]
  split <;> simp

theorem recheckQueueStep_leads :
    Frame.recheckQueue.LeadsOn isOpen (recheckQueueStep s).frames := by
  simp only [recheckQueueStep]
  split <;> simp

theorem recheckFlagStep_leads : Frame.recheckFlag.LeadsOn isOpen (recheckFlagStep s).frames := by
  simp only [recheckFlagStep]
  split <;> simp

theorem settleDownStep_leads (me : ThreadId) :
    Frame.settleDown.LeadsOn isOpen (settleDownStep me s).frames := by
  simp only [settleDownStep]
  split <;> simp

theorem lockBellStep_leads {me : ThreadId} (taken : lockBellStep me s = some p) :
    Frame.lockBell.LeadsOn isOpen p.frames := by
  simp only [lockBellStep] at taken
  split at taken <;> cases taken
  simp

theorem restStep_leads {me : ThreadId} {late : Bool} (taken : restStep me late s = some p) :
    Frame.rest.LeadsOn isOpen p.frames := by
  simp only [restStep] at taken
  split at taken
  · split at taken <;> cases taken
    simp
  · cases taken
    simp

theorem getUpStep_leads (taken : getUpStep s = some p) :
    Frame.getUp.LeadsOn isOpen p.frames := by
  simp only [getUpStep] at taken
  split at taken <;> cases taken
  simp

/-! ### Shutting down and stopping -/

theorem shutdownStep_leads (worker : Bool) :
    Frame.shutdown.LeadsOn isOpen (shutdownStep worker s).frames := by
  simp only [shutdownStep]
  split
  · simp
  · split <;> simp

theorem awaitIdleStep_leads (taken : awaitIdleStep s = some p) :
    Frame.awaitIdle.LeadsOn isOpen p.frames := by
  simp only [awaitIdleStep] at taken
  split at taken <;> cases taken
  simp

theorem closeStep_leads : Frame.close.LeadsOn isOpen (closeStep s).frames :=
  Frame.leadsOn_append.2 ⟨Frame.leadsOn_flatMap Item.leadsOn_refuse, by simp⟩

theorem lockCrewStep_leads {me : ThreadId} (taken : lockCrewStep me s = some p) :
    Frame.lockCrew.LeadsOn isOpen p.frames := by
  simp only [lockCrewStep] at taken
  split at taken <;> cases taken
  simp

theorem joinStep_leads {me : ThreadId} {isDone : ThreadId → Bool} {workers : List ThreadId}
    (taken : joinStep me isDone s workers = some p) :
    (Frame.join workers).LeadsOn isOpen p.frames := by
  cases workers with
  | nil => cases taken; simp
  | cons first others =>
    simp only [joinStep] at taken
    split at taken <;> cases taken
    simp

theorem runHandlersStep_leads (stopping : Stopping W) :
    (Frame.runHandlers stopping).LeadsOn isOpen (runHandlersStep s stopping).frames := by
  simp only [runHandlersStep]
  split <;> simp

theorem askListenersStep_leads (stopping : Stopping W) :
    (Frame.askListeners stopping).LeadsOn isOpen (askListenersStep s stopping).frames := by
  simp only [askListenersStep]
  split <;> simp

theorem awaitListenersStep_leads {stopping : Stopping W}
    (taken : awaitListenersStep s stopping = some p) :
    (Frame.awaitListeners stopping).LeadsOn isOpen p.frames := by
  simp only [awaitListenersStep] at taken
  split at taken
  · cases taken
    cases stopping.shutsDown <;> simp
  · split at taken <;> cases taken
    simp

/-! ### All frames -/

/-- What a step leaves is on the list. -/
theorem Frame.step_leads {sight : Sight} {choice : Choice}
    (taken : frame.step client sight choice s = some p) :
    frame.LeadsOn (!s.queue.closed) p.frames := by
  cases frame with
  | running role code => exact fun next mem => .code (Code.mayLeave_step taken next mem)
  | waiting role next => cases taken
  | claim placing => cases taken; exact claimStep_leads placing
  | enter placing => cases taken; exact enterStep_leads placing
  | push job asker => cases taken; exact pushStep_leads job asker
  | checkOpen receiver job asker => cases taken; exact checkOpenStep_leads receiver job asker
  | append receiver group job asker =>
    cases taken; exact appendStep_leads receiver group job asker
  | submit group asker => cases taken; exact submitStep_leads group asker
  | drain group => cases taken; exact drainStep_leads group
  | settle f outcome => cases taken; exact settleStep_leads f outcome
  | dropHandle => cases taken; exact dropHandleStep_leads
  | openCall call metadata fault => cases taken; exact openCallStep_leads call metadata fault
  | evaluate r => cases taken; exact evaluateStep_leads r
  | poll => cases taken; exact pollStep_leads
  | checkFlag => cases taken; exact checkFlagStep_leads
  | lockBell => exact lockBellStep_leads taken
  | recheckQueue => cases taken; exact recheckQueueStep_leads
  | recheckFlag => cases taken; exact recheckFlagStep_leads
  | settleDown => cases taken; exact settleDownStep_leads sight.me
  | rest => exact restStep_leads taken
  | getUp => exact getUpStep_leads taken
  | turn group => cases taken; exact turnStep_leads group
  | endTurn group => cases taken; exact endTurnStep_leads group
  | ring => exact ringStep_leads (fun b => b.ringOne choice.pick) taken
  | ringAll => exact ringStep_leads Bell.ringAll taken
  | shutdown => cases taken; exact shutdownStep_leads sight.worker
  | awaitIdle => exact awaitIdleStep_leads taken
  | close => cases taken; exact closeStep_leads
  | lockCrew => exact lockCrewStep_leads taken
  | join workers => exact joinStep_leads taken
  | runHandlers stopping => cases taken; exact runHandlersStep_leads stopping
  | askListeners stopping => cases taken; exact askListenersStep_leads stopping
  | awaitListeners stopping => exact awaitListenersStep_leads taken
  | awaitFuture future | awaitFutureAtMost future milliseconds => exact awaitFutureStep_leads taken
  | deliver reply | letGo held | locate receiver job asker | announce future | leave | discard job
  | query object site | track call lane | raiseFlag | takeHandlers shutsDown
  | readListeners stopping | openStop listener lane metadata stopping =>
    cases taken
    simp [locateStep, leaveStep, queryStep, trackStep, raiseFlagStep, takeHandlersStep,
      readListenersStep, openStopStep]

end Steps
end Strands
