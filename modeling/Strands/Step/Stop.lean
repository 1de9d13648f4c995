/-
Shutting down, and stopping gracefully.

A shutdown on a thread that is no worker first waits until no work is in flight;
on a worker it cannot wait and refuses what is queued.  It then closes the queue,
raises the flag and waits for the workers to end, itself excepted.

A graceful stop runs the stop handlers, asks every listener that can be stopped,
and then waits for all of them.
-/
import Strands.Step.Placing

namespace Strands

variable {W : Type}

/-- Begin to shut down, unless that was done already. -/
def shutdownStep (worker : Bool) (s : Shared W) : Progress W :=
  { shared := s
    frames :=
      if s.flag then [] else if worker then [.close] else [.awaitIdle] }

/-- Wait until no work is in flight, and then go on to close the queue. -/
def awaitIdleStep (s : Shared W) : Option (Progress W) :=
  if s.inFlight = 0 then some { shared := s, frames := [.close] } else none

def closeStep (s : Shared W) : Progress W :=
  { shared := { s with queue := s.queue.close }
    frames := s.queue.items.flatMap Item.refuse ++ [.raiseFlag, .ringAll, .lockCrew] }

def raiseFlagStep (s : Shared W) : Progress W := { shared := { s with flag := true } }

/-- Lock the list of workers and take them off it. -/
def lockCrewStep (me : ThreadId) (s : Shared W) : Option (Progress W) :=
  match s.crew.owner with
  | none =>
    some
      { shared := { s with crew := { workers := [], owner := some me } }
        frames := [.join s.crew.workers] }
  | some _ => none

/-- Wait for workers to end, one after another, oneself excepted. -/
def joinStep (me : ThreadId) (isDone : ThreadId → Bool) (s : Shared W) :
    List ThreadId → Option (Progress W)
  | [] => some { shared := { s with crew := { s.crew with owner := none } } }
  | worker :: rest =>
    if worker = me ∨ isDone worker then some { shared := s, frames := [.join rest] } else none

/-- Take the stop handlers, so that no other stop runs them. -/
def takeHandlersStep (s : Shared W) (shutsDown : Bool) : Progress W :=
  { shared := { s with registry := s.registry.takeHandlers }
    frames := [.readListeners { handlers := s.registry.handlers, shutsDown }] }

def readListenersStep (s : Shared W) (stopping : Stopping W) : Progress W :=
  { shared := s
    frames := [.runHandlers { stopping with listeners := s.registry.listeners }] }

def handlerStrand (index : Nat) : Strand := .detached s!"stop-handler-{index}"

def runHandlersStep (s : Shared W) (stopping : Stopping W) : Progress W :=
  { shared := s
    frames :=
      match stopping.handlers with
      | [] => [.askListeners stopping]
      | handler :: rest =>
        [.running (.handler { stopping with handlers := rest })
          (handler (handlerStrand stopping.report.handlersRun))] }

def askListenersStep (s : Shared W) (stopping : Stopping W) : Progress W :=
  { shared := s
    frames :=
      match stopping.listeners with
      | [] => [.awaitListeners stopping]
      | listener :: rest => [.query listener (.listener { stopping with listeners := rest })] }

/-- What the future of a listener's call is made with. -/
def stopSpec (listener : ObjectId) (metadata : Metadata) : FutureSpec where
  strandName := some s!"listener-stop-{objectName listener}"
  metadata := metadata
  returnType := .nil

def openStopStep (s : Shared W) (listener : ObjectId) (lane : Lane) (metadata : Metadata)
    (stopping : Stopping W) : Progress W :=
  let future := s.futures.nextId
  { shared := s.addFuture (stopSpec listener metadata) .silent
    frames :=
      [.claim {
          place := lane.placement listener
          task := .stop listener
          future
          asker := .nobody },
        .askListeners { stopping with asked := stopping.asked ++ [(listener, future)] }] }

def awaitListenersStep (s : Shared W) (stopping : Stopping W) : Option (Progress W) :=
  match stopping.asked with
  | [] =>
    some
      { shared := s
        frames :=
          (if stopping.shutsDown then [.shutdown] else []) ++
          [.deliver (.report stopping.report)] }
  | (listener, future) :: rest =>
    match s.futures.get? future with
    | some { notified := true, state := some outcome, .. } =>
      let report := stopping.report.afterListener listener outcome
      some { shared := s, frames := [.awaitListeners { stopping with asked := rest, report }] }
    | _ => none

def awaitFutureStep (s : Shared W) (future : FutureId) (late : Bool) : Option (Progress W) :=
  match s.futures.get? future with
  | some { notified := true, state, .. } =>
    some { shared := s, frames := [.deliver (.outcome state)] }
  | _ => if late then some { shared := s, frames := [.deliver (.outcome none)] } else none

end Strands
