/-
Deeds: what steps do to the arguments of calls and to units, with all the data.

An event says what happened to which future.  A `Deed` says what it was about: the call
that was made, the lookup that began, the expression an omitted argument is computed by,
the code a unit runs and what it ended with.  Every step is one deed, like it is one
event, and `State.tells_of_acted` says that the two tell of the same thing.

A `Quest` is a request for complete arguments, as far as it has come.  A deed takes at
most one of them away and brings at most one in, `Deed.gone` and `Deed.made`.
-/
import Strands.Proofs.Beat

namespace Strands

variable {W : Type}

/-- What is asked of the receiver of a call that has its future. -/
def OpenCall.lookup (call : OpenCall) (lane : Lane) : Lookup W where
  receiver := call.receiver
  method := call.method
  args := call.args
  parent := some call.strand
  next := .place
    { receiver := call.receiver, method := call.method, lane, future := call.future }

def Lookup.resolution (lookup : Lookup W) (pending : List (Omitted W)) (metadata : Metadata) :
    Resolution W where
  pending := pending
  args := lookup.args
  parent := lookup.parent
  metadata := metadata
  next := lookup.next

/-- The call with its future. -/
def Call.open (call : Call W) (metadata : Metadata) (future : FutureId) : OpenCall where
  receiver := call.receiver
  method := call.method
  args := call.invocation.args
  strand := (call.invocation.spec metadata).strand future

def Placing.job (p : Placing W) : Job W := ⟨p.task, p.future⟩

/-- A request for complete arguments, as far as it has come. -/
inductive Quest (W : Type) where
  /-- The receiver is asked which arguments are left out. -/
  | asking (lookup : Lookup W)
  /-- The receiver is asked again, for the name of the call site. -/
  | naming (lookup : Lookup W) (pending : List (Omitted W))
  | filling (resolution : Resolution W)
  /-- The next argument is the outcome of a future. -/
  | awaiting (future : FutureId) (resolution : Resolution W)

/-- What the complete arguments, or the failure to complete them, go to. -/
def Quest.next : Quest W → Next W
  | asking lookup | naming lookup _ => lookup.next
  | filling r | awaiting _ r => r.next

def Quest.awaited : Quest W → Option FutureId
  | awaiting future _ => some future
  | _ => none

inductive Deed (W : Type) where
  -- Completing the arguments of a call
  /-- An invocation got its future. -/
  | opened (future : FutureId) (call : Call W) (metadata : Metadata) (fault : Option Panic)
  /-- The receiver panicked when it was asked whether it is isolated. -/
  | faulted (call : OpenCall) (panic : Panic)
  | sought (lookup : Lookup W)
  /-- The receiver's type said which arguments are to be computed. -/
  | planned (lookup : Lookup W) (pending : List (Omitted W))
  | began (lookup : Lookup W) (pending : List (Omitted W)) (metadata : Metadata)
  /-- A future was made for an omitted argument.  The resolution is what remains. -/
  | argument (future : FutureId) (omitted : Omitted W) (resolution : Resolution W)
  /-- An argument was computed. -/
  | gained (future : FutureId) (resolution : Resolution W) (value : Value)
  | handed (quest : Quest W) (result : Except DomainError (List Value))
  /-- The receiver panicked when it was asked for its type. -/
  | abandoned (quest : Quest W) (panic : Panic)
  -- Placing and running a unit
  /-- A client asked to place a unit. -/
  | placed (placing : Placing W)
  /-- The stop method of a listener is to be called. -/
  | asked (placing : Placing W)
  /-- A unit was bound to its future. -/
  | bound (placing : Placing W)
  /-- The group of a receiver was found or made for a job. -/
  | located (receiver : ObjectId) (job : Job W)
  | started (job : Job W) (code : Code W)
  | ended (job : Job W) (result : Except Panic Outcome)
  | other

namespace Deed

def gone : Deed W → Option (Quest W)
  | planned lookup _ => some (.asking lookup)
  | began lookup pending _ => some (.naming lookup pending)
  | argument _ omitted r => some (.filling { r with pending := omitted :: r.pending })
  | gained future r _ => some (.awaiting future r)
  | handed quest _ | abandoned quest _ => some quest
  | _ => none

def made : Deed W → Option (Quest W)
  | sought lookup => some (.asking lookup)
  | planned lookup pending => some (.naming lookup pending)
  | began lookup pending metadata => some (.filling (lookup.resolution pending metadata))
  | argument future _ r => some (.awaiting future r)
  | gained _ r value => some (.filling { r with args := r.args ++ [value] })
  | _ => none

def placing? : Deed W → Option (Placing W)
  | argument future omitted r =>
    some { place := .free, task := .default omitted.expression r.args, future, asker := .nobody }
  | handed quest (.ok args) =>
    match quest.next with
    | .place call =>
      some
        { place := call.lane.placement call.receiver
          task := .call call.receiver call.method args
          future := call.future
          asker := .nobody }
    | .client _ => none
  | placed p | asked p => some p
  | _ => none

end Deed

/-! ## The deed of a step -/

namespace Site

def answeredDeed (type : ObjectType W) : Site W → Deed W
  | omitted lookup =>
    match type.omitted lookup.method lookup.args.length with
    | .error e => .handed (.asking lookup) (.error e)
    | .ok [] => .handed (.asking lookup) (.ok lookup.args)
    | .ok pending => .planned lookup pending
  | expressions lookup pending => .began lookup pending (.ofMethod type.name lookup.method)
  | _ => .other

def panickedDeed (panic : Panic) : Site W → Deed W
  | lane call => .faulted call panic
  | omitted lookup => .abandoned (.asking lookup) panic
  | expressions lookup pending => .abandoned (.naming lookup pending) panic
  | _ => .other

end Site

def Role.endedDeed (client : Client W) (s : Shared W) (result : Except Panic Outcome) :
    Role W → Deed W
  | task job => .ended job result
  | query object site =>
    match result with
    | .ok _ => site.answeredDeed (client.typeOf object s.world)
    | .error panic => site.panickedDeed panic
  | _ => .other

def Code.deed (client : Client W) (s : Shared W) (role : Role W) : Code W → Deed W
  | finish outcome => role.endedDeed client s (.ok outcome)
  | panic payload => role.endedDeed client s (.error payload)
  | schedule place work future _ =>
    if s.hasHandle future then
      .placed { place, task := .work work, future, asker := .client future }
    else .other
  | resolve receiver method args parent continuation _ =>
    .sought { receiver, method, args, parent, next := .client continuation }
  | _ => .other

def Callback.deed (future : FutureId) (outcome : Outcome) : Callback W → Deed W
  | argument r =>
    match outcome with
    | .ok value => .gained future r value
    | .error e => .handed (.awaiting future r) (.error e)
  | _ => .other

def Job.startDeed (client : Client W) (s : Shared W) (job : Job W) : Deed W :=
  .started job (job.task.start client (s.futures.strandOf job.future))

def Frame.deed (client : Client W) (s : Shared W) : Frame W → Deed W
  | running role code => code.deed client s role
  | claim p =>
    match s.futures.get? p.future with
    | some { claimed := false, .. } => .bound p
    | _ => .other
  | locate receiver job _ => .located receiver job
  | settle future outcome =>
    match s.futures.get? future with
    | some { state := none, callback := some callback, .. } => callback.deed future outcome
    | _ => .other
  | openCall call metadata fault => .opened s.futures.nextId call metadata fault
  | track call lane => .sought (call.lookup lane)
  | evaluate r =>
    match r.pending with
    | [] => .handed (.filling r) (.ok r.args)
    | omitted :: others => .argument s.futures.nextId omitted { r with pending := others }
  | poll =>
    match s.queue.items with
    | .job job :: _ => job.startDeed client s
    | _ => .other
  | turn group =>
    match s.groups[group]? with
    | some g =>
      match g.jobs with
      | job :: _ => job.startDeed client s
      | [] => .other
    | none => .other
  | openStop listener lane _ _ =>
    .asked
      { place := lane.placement listener
        task := .stop listener
        future := s.futures.nextId
        asker := .nobody }
  | _ => .other

theorem Frame.deed_of_lingers {frame : Frame W} (lingers : frame.lingers = true)
    (client : Client W) (s : Shared W) : frame.deed client s = .other := by
  cases frame <;> first | rfl | cases lingers

/-! ## Which frame does which deed -/

def Deed.isManaged : Deed W → Bool
  | opened _ _ _ _ | argument _ _ _ | gained _ _ _ | asked _ | bound _ | located _ _
  | started _ _ => false
  | _ => true

/-- The deed of a frame, with what the frame finds. -/
inductive Frame.Does (client : Client W) (s : Shared W) : Frame W → Deed W → Prop
  | managed {role : Role W} {code : Code W} {δ : Deed W} :
      δ.isManaged = true → code.deed client s role = δ → Does client s (.running role code) δ
  | bound {p : Placing W} {u : Future W} :
      s.futures.get? p.future = some u → u.claimed = false → Does client s (.claim p) (.bound p)
  | located {receiver : ObjectId} {job : Job W} {asker : Asker} :
      Does client s (.locate receiver job asker) (.located receiver job)
  | gained {f : FutureId} {value : Value} {r : Resolution W} {u : Future W} :
      s.futures.get? f = some u → u.state = none → u.callback = some (.argument r) →
      Does client s (.settle f (.ok value)) (.gained f r value)
  | failed {f : FutureId} {e : DomainError} {r : Resolution W} {u : Future W} :
      s.futures.get? f = some u → u.state = none → u.callback = some (.argument r) →
      Does client s (.settle f (.error e)) (.handed (.awaiting f r) (.error e))
  | opened {call : Call W} {metadata : Metadata} {fault : Option Panic} :
      Does client s (.openCall call metadata fault)
        (.opened s.futures.nextId call metadata fault)
  | sought {call : OpenCall} {lane : Lane} :
      Does client s (.track call lane) (.sought (call.lookup lane))
  | filled {r : Resolution W} :
      r.pending = [] → Does client s (.evaluate r) (.handed (.filling r) (.ok r.args))
  | argument {r : Resolution W} {omitted : Omitted W} {others : List (Omitted W)} :
      r.pending = omitted :: others →
      Does client s (.evaluate r)
        (.argument s.futures.nextId omitted { r with pending := others })
  | started {job : Job W} {others : List (Item W)} :
      s.queue.items = .job job :: others → Does client s .poll (job.startDeed client s)
  | turned {group : GroupId} {g : Group W} {job : Job W} {others : List (Job W)} :
      s.groups[group]? = some g → g.jobs = job :: others →
      Does client s (.turn group) (job.startDeed client s)
  | asked {listener : ObjectId} {lane : Lane} {metadata : Metadata} {stopping : Stopping W} :
      Does client s (.openStop listener lane metadata stopping)
        (.asked
          { place := lane.placement listener
            task := .stop listener
            future := s.futures.nextId
            asker := .nobody })
  | other {frame : Frame W} : Does client s frame .other

section Does

variable (client : Client W) (s : Shared W)

theorem Site.answeredDeed_isManaged (type : ObjectType W) (site : Site W) :
    (site.answeredDeed type).isManaged = true := by
  cases site with
  | omitted lookup =>
    simp only [answeredDeed]
    split <;> rfl
  | _ => rfl

theorem Role.endedDeed_isManaged (result : Except Panic Outcome) (role : Role W) :
    (role.endedDeed client s result).isManaged = true := by
  cases role with
  | query object site =>
    cases result with
    | ok outcome => exact site.answeredDeed_isManaged _
    | error panic => cases site <;> rfl
  | _ => rfl

theorem Code.deed_isManaged (role : Role W) (code : Code W) :
    (code.deed client s role).isManaged = true := by
  cases code with
  | finish outcome | panic payload => exact role.endedDeed_isManaged client s _
  | schedule place work future next =>
    simp only [deed]
    split <;> rfl
  | _ => rfl

/-- Every frame does the deed that it is said to do. -/
theorem Frame.does (frame : Frame W) : frame.Does client s (frame.deed client s) := by
  cases frame with
  | running role code => exact .managed (code.deed_isManaged client s role) rfl
  | claim p =>
    simp only [deed]
    split
    · rename_i found
      exact .bound found rfl
    · exact .other
  | locate receiver job asker => exact .located
  | settle f outcome =>
    simp only [deed]
    split
    · rename_i callback _ _ _ found
      cases callback with
      | argument r =>
        cases outcome with
        | ok value => exact .gained found rfl rfl
        | error e => exact .failed found rfl rfl
      | _ => exact .other
    · exact .other
  | openCall call metadata fault => exact .opened
  | track call lane => exact .sought
  | evaluate r =>
    simp only [deed]
    split
    · rename_i pending
      exact .filled pending
    · rename_i pending
      exact .argument pending
  | poll =>
    simp only [deed]
    split
    · rename_i items
      exact .started items
    · exact .other
  | turn group =>
    simp only [deed]
    split
    · rename_i found
      split
      · rename_i jobs
        exact .turned found jobs
      · exact .other
    · exact .other
  | openStop listener lane metadata stopping => exact .asked
  | _ => exact .other

end Does

def Move.deed (client : Client W) (s : Shared W) : List (Frame W) → Deed W
  | [frame] => frame.deed client s
  | _ => .other

def stackDeed (client : Client W) (s : Shared W) : List (Frame W) → Deed W
  | frame :: _ => frame.deed client s
  | [] => .other

def Beat.deed (client : Client W) (beat : Beat W) : Deed W :=
  match beat.s.threads[beat.thread]? with
  | none => .other
  | some t => stackDeed client beat.s.shared t.stack

def deeds (client : Client W) (log : List (Beat W)) : List (Deed W) := log.map (Beat.deed client)

section

variable (client : Client W)

@[simp] theorem deeds_nil : deeds client [] = [] := rfl

@[simp] theorem deeds_cons (beat : Beat W) (log : List (Beat W)) :
    deeds client (beat :: log) = beat.deed client :: deeds client log := rfl

@[simp] theorem deeds_append (a b : List (Beat W)) :
    deeds client (a ++ b) = deeds client a ++ deeds client b := List.map_append

end

section

variable {client : Client W} {a b : List (Beat W)} {δ : Deed W}

theorem mem_deeds_left (mem : δ ∈ deeds client a) (b : List (Beat W)) :
    δ ∈ deeds client (a ++ b) := by
  rw [deeds_append]
  exact List.mem_append_left _ mem

theorem mem_deeds_right (a : List (Beat W)) (mem : δ ∈ deeds client b) :
    δ ∈ deeds client (a ++ b) := by
  rw [deeds_append]
  exact List.mem_append_right _ mem

end

/-! ## Deeds and events -/

namespace Event

def isBare : Event → Bool
  | opened _ _ _ | argument _ _ | asked _ | requested _ | claimed _ _ _ | started _ | turned _ _ _
  | ended _ _ | located _ | tracked _ | faulted _ _ | failed _ _ | placed _ | resolving => false
  | notified _ _ failing => failing.isNone
  | _ => true

end Event

inductive Deed.Tells : Deed W → Event → Prop
  | opened {f : FutureId} {call : Call W} {metadata : Metadata} {fault : Option Panic}
      {context : List FutureId} : Tells (.opened f call metadata fault) (.opened f fault context)
  | faulted {call : OpenCall} {panic : Panic} :
      Tells (.faulted call panic) (.faulted call.future (.ofPanic panic))
  | sought {lookup : Lookup W} : lookup.next.call? = none → Tells (.sought lookup) .other
  | tracked {lookup : Lookup W} {f : FutureId} :
      lookup.next.call? = some f → Tells (.sought lookup) (.tracked f)
  | planned {lookup : Lookup W} {pending : List (Omitted W)} :
      Tells (.planned lookup pending) .other
  | began {lookup : Lookup W} {pending : List (Omitted W)} {metadata : Metadata} :
      Tells (.began lookup pending metadata) .resolving
  | argument {f : FutureId} {omitted : Omitted W} {r : Resolution W} {call : Option FutureId} :
      call = r.next.call? → Tells (.argument f omitted r) (.argument f call)
  | gained {f : FutureId} {r : Resolution W} {value : Value} :
      Tells (.gained f r value) (.notified f (.ok value) none)
  | failing {f : FutureId} {r : Resolution W} {e : DomainError} {call : Option FutureId} :
      call = r.next.call? → Tells (.handed (.awaiting f r) (.error e)) (.notified f (.error e) call)
  | complete {quest : Quest W} {args : List Value} {f : FutureId} :
      quest.next.call? = some f → Tells (.handed quest (.ok args)) (.placed f)
  | failed {quest : Quest W} {e : DomainError} {f : FutureId} :
      quest.awaited = none → quest.next.call? = some f →
      Tells (.handed quest (.error e)) (.failed f e)
  | handed {quest : Quest W} {result : Except DomainError (List Value)} :
      quest.awaited = none → quest.next.call? = none → Tells (.handed quest result) .other
  | givenUp {quest : Quest W} {panic : Panic} {f : FutureId} :
      quest.next.call? = some f → Tells (.abandoned quest panic) (.failed f (.ofPanic panic))
  | abandoned {quest : Quest W} {panic : Panic} :
      quest.next.call? = none → Tells (.abandoned quest panic) .other
  | placed {p : Placing W} : Tells (.placed p) (.requested p.future)
  | asked {p : Placing W} : Tells (.asked p) (.asked p.future)
  | bound {p : Placing W} {context : List FutureId} :
      Tells (.bound p) (.claimed p.future p.asker.isClient context)
  | located {receiver : ObjectId} {job : Job W} : Tells (.located receiver job) (.located receiver)
  | started {job : Job W} {code : Code W} : Tells (.started job code) (.started job.future)
  | turned {job : Job W} {code : Code W} {receiver : ObjectId} {group : GroupId} :
      Tells (.started job code) (.turned receiver group job.future)
  | ended {job : Job W} {result : Except Panic Outcome} :
      Tells (.ended job result)
        (.ended job.future (job.task.conclude (Outcome.ofEnd result)))
  | bare {e : Event} : e.isBare = true → Tells .other e

section Tells

variable (client : Client W) (s : Shared W)

theorem Next.failed_tells {quest : Quest W} (e : DomainError) (free : quest.awaited = none) :
    Deed.Tells (.handed quest (.error e)) (quest.next.failedEvent e) := by
  cases next : quest.next.call? with
  | none =>
    simp only [Next.failedEvent, next]
    exact .handed free next
  | some f =>
    simp only [Next.failedEvent, next]
    exact .failed free next

theorem Next.placed_tells {quest : Quest W} (args : List Value) (free : quest.awaited = none) :
    Deed.Tells (.handed quest (.ok args)) quest.next.placedEvent := by
  cases next : quest.next.call? with
  | none =>
    simp only [Next.placedEvent, next]
    exact .handed free next
  | some f =>
    simp only [Next.placedEvent, next]
    exact .complete next

theorem Next.abandoned_tells (quest : Quest W) (panic : Panic) :
    Deed.Tells (.abandoned quest panic) (quest.next.failedEvent (.ofPanic panic)) := by
  cases next : quest.next.call? with
  | none =>
    simp only [Next.failedEvent, next]
    exact .abandoned next
  | some f =>
    simp only [Next.failedEvent, next]
    exact .givenUp next

theorem Site.answered_tells (type : ObjectType W) (site : Site W) :
    (site.answeredDeed type).Tells (site.answeredEvent type) := by
  cases site with
  | omitted lookup =>
    cases missing : type.omitted lookup.method lookup.args.length with
    | error e =>
      simp only [answeredDeed, answeredEvent, missing]
      exact Next.failed_tells e rfl
    | ok pending =>
      cases pending with
      | nil =>
        simp only [answeredDeed, answeredEvent, missing]
        exact Next.placed_tells lookup.args rfl
      | cons first others =>
        simp only [answeredDeed, answeredEvent, missing]
        exact .planned
  | expressions lookup pending => exact .began
  | _ => exact .bare rfl

theorem Site.panicked_tells (panic : Panic) (site : Site W) :
    (site.panickedDeed panic).Tells (site.panickedEvent panic) := by
  cases site with
  | lane call => exact .faulted
  | omitted lookup => exact Next.abandoned_tells (.asking lookup) panic
  | expressions lookup pending => exact Next.abandoned_tells (.naming lookup pending) panic
  | _ => exact .bare rfl

theorem Role.ended_tells (result : Except Panic Outcome) (role : Role W) :
    (role.endedDeed client s result).Tells (role.endedEvent client s result) := by
  cases role with
  | task job => exact .ended
  | query object site =>
    cases result with
    | ok outcome => exact site.answered_tells _
    | error panic => exact site.panicked_tells panic
  | _ => exact .bare rfl

theorem Code.tells (role : Role W) (code : Code W) :
    (code.deed client s role).Tells (code.event client s role) := by
  cases code with
  | finish outcome => exact role.ended_tells client s (.ok outcome)
  | panic payload => exact role.ended_tells client s (.error payload)
  | ask request next =>
    cases request with
    | takeHandle =>
      refine .bare ?_
      simp only [event, Request.event]
      split <;> rfl
    | _ => exact .bare rfl
  | schedule place work future next =>
    simp only [deed, event]
    split
    · exact .placed
    · exact .bare rfl
  | resolve receiver method args parent continuation next => exact .sought rfl
  | _ => exact .bare rfl

theorem Callback.tells (f : FutureId) (outcome : Outcome) (callback : Callback W) :
    (callback.deed f outcome).Tells (.notified f outcome (callback.failing outcome)) := by
  cases callback with
  | argument r =>
    cases outcome with
    | ok value => exact .gained
    | error e => exact .failing rfl
  | _ => exact .bare rfl

theorem Frame.tells (worker : Bool) (below : List (Frame W)) (frame : Frame W) :
    (frame.deed client s).Tells (frame.event client worker s below) := by
  cases frame with
  | running role code => exact code.tells client s role
  | deliver reply => cases reply <;> exact .bare rfl
  | claim p =>
    cases found : s.futures.get? p.future with
    | none =>
      simp only [deed, event, found]
      exact .bare rfl
    | some u =>
      obtain ⟨strand, returnType, state, callback, notified, claimed, kept⟩ := u
      cases claimed with
      | true =>
        simp only [deed, event, found]
        exact .bare rfl
      | false =>
        simp only [deed, event, found]
        exact .bound
  | push job asker | checkOpen receiver job asker =>
    simp only [deed, event]
    split <;> exact .bare rfl
  | locate receiver job asker => exact .located
  | append receiver group job asker | drain group =>
    simp only [deed, event]
    split <;> exact .bare rfl
  | settle f outcome =>
    cases found : s.futures.get? f with
    | none =>
      simp only [deed, event, found]
      exact .bare rfl
    | some u =>
      obtain ⟨strand, returnType, state, callback, notified, claimed, kept⟩ := u
      cases state with
      | some earlier =>
        simp only [deed, event, found]
        exact .bare rfl
      | none =>
        simp only [deed, event, found]
        cases callback with
        | none => exact .bare rfl
        | some callback => exact callback.tells f outcome
  | openCall call metadata fault => exact .opened
  | track call lane => exact .tracked rfl
  | evaluate r =>
    cases pending : r.pending with
    | nil =>
      simp only [deed, event, pending]
      exact Next.placed_tells r.args rfl
    | cons omitted others =>
      simp only [deed, event, pending]
      exact .argument rfl
  | poll =>
    rcases items : s.queue.items with _ | ⟨item, others⟩
    · simp only [deed, event, items]
      exact .bare rfl
    · cases item <;> simp only [deed, event, items]
      · exact .started
      · exact .bare rfl
  | turn group =>
    cases found : s.groups[group]? with
    | none =>
      simp only [deed, event, found]
      exact .bare rfl
    | some g =>
      cases jobs : g.jobs <;> simp only [deed, event, found, jobs]
      · exact .bare rfl
      · exact .turned
  | endTurn group =>
    simp only [deed, event]
    split
    · split <;> exact .bare rfl
    · exact .bare rfl
  | openStop listener lane metadata stopping => exact .asked
  | _ => exact .bare rfl

end Tells

/-- The deed of a thread's step is that of its move. -/
theorem State.deed_of_acted {client : Client W} {s s' : State W} {thread : ThreadId}
    {choice : Choice} (acted : Acted client s s' thread choice) :
    (⟨s, thread⟩ : Beat W).deed client = Move.deed client s.shared acted.top := by
  have stack := acted.stack
  have move := acted.move
  simp only [Beat.deed, acted.actor_eq, stack]
  generalize acted.progress = p at move
  generalize acted.top = top at move
  cases move <;> rfl

/-- A deed is that of a frame which takes a step, and what the step leaves is what the thread
goes on with. -/
theorem State.Log.frame_of_deed {client : Client W} {start s : State W} {log : List (Beat W)}
    (run : Log client start log s) {beat : Beat W} (mem : beat ∈ log)
    (told : beat.deed client ≠ .other) :
    ∃ (frame : Frame W) (sight : Sight) (choice : Choice) (p : Progress W),
      frame.step client sight choice beat.s.shared = some p ∧
      frame.deed client beat.s.shared = beat.deed client ∧
      ∀ frames, frames <+: p.frames → beat.GoesOn client frames := by
  obtain ⟨choice, s', _, taken, _⟩ := run.step_of_mem mem
  obtain ⟨acted⟩ := step_cases taken
  have found := acted.actor_eq'
  have move := acted.move
  rw [deed_of_acted acted] at told ⊢
  generalize acted.progress = p at found move
  generalize acted.top = top at told move ⊢
  cases move with
  | act moved =>
    exact ⟨_, _, _, _, moved, rfl, fun frames first =>
      ⟨choice, s', _, taken, found, first.trans (List.prefix_append _ _)⟩⟩
  | _ => exact absurd rfl told

/-- The deed and the event of a step tell of the same thing. -/
theorem State.tells_of_acted {client : Client W} {s s' : State W} {thread : ThreadId}
    {choice : Choice} (acted : Acted client s s' thread choice) :
    ((⟨s, thread⟩ : Beat W).deed client).Tells (s.event client thread) := by
  rw [deed_of_acted acted, acted.event]
  have move := acted.move
  generalize acted.progress = p at move
  generalize acted.top = top at move
  cases move with
  | receive reply role next => cases reply <;> exact .bare rfl
  | pass reply held => exact .bare rfl
  | act taken => exact Frame.tells client s.shared _ _ _

end Strands
