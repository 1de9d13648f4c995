/-
Placing units of work on a lane, and completing futures.

A future is bound to at most one unit: the first to claim it.  From then on the
unit is a job, counted as work in flight until its future's callback has
returned, whether the job was run or refused.
-/
import Strands.Step.Basic

namespace Strands

variable {W : Type}

namespace Asker

def answer (result : Except ScheduleError Unit) : Asker → List (Frame W)
  | client future => [.deliver (.placed future result)]
  | nobody => []

end Asker

namespace Job

/-- Refuse a job: its future fails, and then it is done with. -/
def refuse (job : Job W) : List (Frame W) := [.settle job.future refusal, .discard job]

def run (client : Client W) (futures : Futures W) (job : Job W) : List (Frame W) :=
  [.running (.task job) (job.task.start client (futures.strandOf job.future))]

end Job

def Item.refuse : Item W → List (Frame W)
  | .job j => j.refuse
  | .group g => [.drain g]

namespace Next

/-- Hand over complete arguments, or the failure to complete them.  `direct` says
that whoever asked for them is still waiting for an answer. -/
def resume (next : Next W) (direct : Bool) (result : Except DomainError (List Value)) :
    List (Frame W) :=
  match next, result with
  | place call, .ok args =>
    [.claim {
        place := call.lane.placement call.receiver
        task := .call call.receiver call.method args
        future := call.future
        asker := .nobody },
      .letGo next.held, .leave, .dropHandle]
  | place call, .error e =>
    [.settle call.future (.error e), .letGo next.held, .leave, .dropHandle]
  | client continuation, result =>
    [.running (if direct then .continuation else .continued) (continuation result),
      .letGo (.ofValues (result.toOption.getD []))]

/-- Give up on completing arguments after a panic. -/
def abandon (next : Next W) (panic : Panic) : List (Frame W) :=
  match next with
  | place call => [.dropHandle, .leave, .settle call.future (.error (.ofPanic panic))]
  | client _ => [.deliver (.panicked panic)]

/-- Tell a client that its request for arguments was taken up. -/
def takenUp : Next W → List (Frame W)
  | place _ => []
  | client _ => [.deliver .done]

end Next

namespace Callback

def notify (outcome : Outcome) : Callback W → List (Frame W)
  | silent => []
  | client notify => [.running (.callback outcome) (notify outcome)]
  | argument resolution =>
    match outcome with
    | .ok value => [.evaluate { resolution with args := resolution.args ++ [value] }]
    | .error e =>
      resolution.next.resume false (.error e) ++
        [.letGo (.ofValues resolution.args ++ resolution.background), .dropHandle]

end Callback

/-- What a claim of a future comes to. -/
def Shared.claimResult (s : Shared W) (f : FutureId) : Except ScheduleError Unit :=
  match s.futures.get? f with
  | some { claimed := false, .. } => .ok ()
  | _ => .error (.alreadyScheduled f)

def claimStep (s : Shared W) (placing : Placing W) : Progress W :=
  match s.futures.get? placing.future with
  | some { claimed := false, .. } =>
    { shared := s.modifyFuture placing.future Future.claim, frames := [.enter placing] }
  | _ =>
    { shared := s
      frames := placing.asker.answer (.error (.alreadyScheduled placing.future)) }

def enterStep (s : Shared W) (placing : Placing W) : Progress W :=
  let job : Job W := ⟨placing.task, placing.future⟩
  { shared := { s with inFlight := s.inFlight + 1 }
    frames :=
      match placing.place with
      | .free => [.push job placing.asker]
      | .group receiver => [.checkOpen receiver job placing.asker] }

def pushStep (s : Shared W) (job : Job W) (asker : Asker) : Progress W :=
  match s.queue.push (.job job) with
  | some queue => { shared := { s with queue }, frames := .ring :: asker.answer (.ok ()) }
  | none => { shared := s, frames := job.refuse ++ asker.answer (.error .shutDown) }

def checkOpenStep (s : Shared W) (receiver : ObjectId) (job : Job W) (asker : Asker) :
    Progress W :=
  { shared := s
    frames :=
      if s.queue.closed then job.refuse ++ asker.answer (.error .shutDown)
      else [.locate receiver job asker] }

def locateStep (isAlive : ObjectId → Bool) (s : Shared W) (receiver : ObjectId) (job : Job W)
    (asker : Asker) : Progress W :=
  let found := s.locate isAlive receiver
  { shared := found.2, frames := [.append receiver found.1 job asker] }

/-- Put a job on a lane.  Whoever finds the token free takes it. -/
def appendStep (s : Shared W) (group : GroupId) (job : Job W) (asker : Asker) : Progress W :=
  match s.groups[group]? with
  | some g =>
    { shared := s.modifyGroup group (·.append job)
      frames := if g.taken then asker.answer (.ok ()) else [.submit group asker] }
  | none => { shared := s, frames := job.refuse ++ asker.answer (.error .shutDown) }

def submitStep (s : Shared W) (group : GroupId) (asker : Asker) : Progress W :=
  match s.queue.push (.group group) with
  | some queue => { shared := { s with queue }, frames := .ring :: asker.answer (.ok ()) }
  | none => { shared := s, frames := .drain group :: asker.answer (.error .shutDown) }

def drainStep (s : Shared W) (group : GroupId) : Progress W :=
  match s.groups[group]? with
  | some g =>
    { shared := s.modifyGroup group Group.drain, frames := g.jobs.flatMap Job.refuse }
  | none => { shared := s }

/-- What completing a future comes to. -/
def Shared.settleResult (s : Shared W) (f : FutureId) : Except FutureError Unit :=
  match s.futures.get? f with
  | some { state := none, .. } => .ok ()
  | _ => .error (.alreadyCompleted f)

/-- Give a future its outcome.  The first outcome stays. -/
def settleStep (s : Shared W) (future : FutureId) (outcome : Outcome) : Progress W :=
  match s.futures.get? future with
  | some { state := none, callback, .. } =>
    { shared := s.modifyFuture future (·.complete outcome)
      frames := (callback.map (Callback.notify outcome)).getD [] ++ [.announce future] }
  | _ => { shared := s }

def leaveStep (s : Shared W) : Progress W :=
  { shared := { s with inFlight := s.inFlight - 1 } }

/-- Drop a handle of the scheduler.  The last one shuts it down. -/
def dropHandleStep (s : Shared W) : Progress W :=
  { shared := { s with handles := s.handles - 1 }
    frames := if s.handles = 1 then [.shutdown] else [] }

def ringStep (s : Shared W) (ring : Bell → Bell) : Option (Progress W) :=
  match s.bell.owner with
  | none => some { shared := { s with bell := ring s.bell } }
  | some _ => none

end Strands
