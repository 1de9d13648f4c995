/-
Dispatching a call.

A call without receiver or method is rejected.  Any other gets a future, has its
omitted arguments computed one after another, each as a unit of work on the free
lane, and is then placed.  The receiver is asked for its type up to four times on
the way.  A panic of its answer fails the future, and whatever was held for the
call until then is let go.
-/
import Strands.Step.Placing

namespace Strands

variable {W : Type}

namespace Invocation

/-- Report a rejected invocation to its callback and to whoever made it. -/
def reject (inv : Invocation) (callback : Outcome → Code W) (error : ValidationError) :
    List (Frame W) :=
  let outcome : Outcome := .error (.runtime error.message)
  [.running (.callback outcome) (callback outcome), .letGo inv.held, .deliver (.invalid error)]

def dispatch (inv : Invocation) (mode : Mode) (callback : Outcome → Code W) : List (Frame W) :=
  match inv.receiver, inv.method with
  | some receiver, some method =>
    let call : Call W := { mode, receiver, method, invocation := inv, callback }
    (match inv.metadata with
      | some metadata => [.openCall call metadata none]
      | none => [.query receiver (.metadata call)]) ++
    [.letGo (.ofObject receiver ++ .ofParent inv.parent)]
  | none, _ => inv.reject callback .nullObject
  | some _, none => inv.reject callback .nullMethodName

end Invocation

def queryStep (client : Client W) (s : Shared W) (object : ObjectId) (site : Site W) :
    Progress W :=
  { shared := { s with queries := s.queries ++ [object] }
    frames := [.running (.query object site) (client.consult object (s.timesAsked object))] }

def openCallStep (s : Shared W) (call : Call W) (metadata : Metadata) (fault : Option Panic) :
    Progress W :=
  let future := s.futures.nextId
  let spec := call.invocation.spec metadata
  let args := call.invocation.args
  let opened : OpenCall :=
    { receiver := call.receiver, method := call.method, args, strand := spec.strand future }
  { shared := s.addFuture spec (.client call.callback)
    frames :=
      (match fault, call.mode with
        | some panic, _ => [.settle future (.error (.ofPanic panic)), .letGo (.ofValues args)]
        | none, .sequential => [.track opened .group]
        | none, .concurrent => [.track opened .free]
        | none, .byIsolation => [.query call.receiver (.lane opened)]) ++
      [.deliver (.future future)] }

/-- Count a call while its arguments are completed.  It also takes a handle of the
scheduler; whoever made the call has one, so no other thread can tell. -/
def trackStep (s : Shared W) (call : OpenCall) (lane : Lane) : Progress W :=
  let next : Next W :=
    .place { receiver := call.receiver, method := call.method, lane, future := call.future }
  { shared := { s with inFlight := s.inFlight + 1, handles := s.handles + 1 }
    frames :=
      [.query call.receiver (.omitted {
        receiver := call.receiver
        method := call.method
        args := call.args
        parent := some call.strand
        next })] }

/-- Compute the next omitted argument, or hand over the complete list. -/
def evaluateStep (s : Shared W) (r : Resolution W) : Progress W :=
  match r.pending with
  | [] =>
    { shared := s
      frames := r.next.resume false (.ok r.args) ++ [.letGo r.background, .dropHandle] }
  | omitted :: rest =>
    let future := s.futures.nextId
    let s := s.addFuture (r.spec omitted.param) (.argument { r with pending := rest })
    { shared := { s with handles := s.handles + 1 }
      frames :=
        [.claim {
            place := .free
            task := .default omitted.expression r.args
            future
            asker := .nobody },
          .letGo r.background, .dropHandle] }

namespace Site

def answered (s : Shared W) (object : ObjectId) (type : ObjectType W) : Site W → Progress W
  | metadata call =>
    { shared := s
      frames := [.openCall call (.ofMethod type.name call.method) none] }
  | lane call => { shared := s, frames := [.track call (type.lane call.method)] }
  | omitted lookup =>
    { shared := s
      frames :=
        match type.omitted lookup.method lookup.args.length with
        | .error e => lookup.next.resume true (.error e) ++ [.letGo (.ofValues lookup.args)]
        | .ok [] => lookup.next.resume true (.ok lookup.args)
        | .ok pending => [.query lookup.receiver (.expressions lookup pending)] }
  | expressions lookup pending =>
    { shared := { s with handles := s.handles + 1 }
      frames :=
        .evaluate {
          pending
          args := lookup.args
          parent := lookup.parent
          metadata := .ofMethod type.name lookup.method
          next := lookup.next } :: lookup.next.takenUp }
  | listener stopping =>
    { shared := s
      frames :=
        match type.method? stopMethod with
        | none => [.askListeners stopping]
        | some _ =>
          [.openStop object (type.lane stopMethod) (.ofMethod type.name stopMethod) stopping] }
  | client => { shared := s, frames := [.deliver .done] }

def panicked (object : ObjectId) (panic : Panic) : Site W → List (Frame W)
  | metadata call => [.openCall call { parentFunction := some call.method } (some panic)]
  | lane call => [.settle call.future (.error (.ofPanic panic))]
  | omitted lookup => lookup.next.abandon panic
  | expressions lookup _ => lookup.next.abandon panic
  | listener stopping =>
    let report := stopping.report.fail (.listener object) (.ofPanic panic)
    [.askListeners { stopping with report }]
  | client => [.deliver (.panicked panic)]

end Site
end Strands
