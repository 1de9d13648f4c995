/-
One step of the machine.

`State.step client s t choice` is the state after thread `t` has taken its next
action, or nothing if the thread has ended or cannot go on for now.  Every
interleaving of threads is a sequence of such steps, so what holds in every
state that steps can reach holds of every run.
-/
import Strands.Step.Managed
import Strands.Step.Worker

namespace Strands

variable {W : Type}

/-- The step of the innermost frame, the delivery of a reply aside. -/
def Frame.step (client : Client W) (sight : Sight) (choice : Choice) (s : Shared W) :
    Frame W → Option (Progress W)
  | running role code => code.step client sight choice.late s role
  | waiting _ _ => none
  | deliver reply => some { shared := s.receive reply }
  | letGo _ => some { shared := s }
  | claim placing => some (claimStep s placing)
  | enter placing => some (enterStep s placing)
  | push job asker => some (pushStep s job asker)
  | checkOpen receiver job asker => some (checkOpenStep s receiver job asker)
  | locate receiver job asker => some (locateStep sight.isAlive s receiver job asker)
  | append _ group job asker => some (appendStep s group job asker)
  | submit group asker => some (submitStep s group asker)
  | drain group => some (drainStep s group)
  | ring => ringStep s fun b => b.ringOne choice.pick
  | settle future outcome => some (settleStep s future outcome)
  | announce future => some { shared := s.modifyFuture future Future.announce }
  | leave => some (leaveStep s)
  | discard _ => some (leaveStep s)
  | dropHandle => some (dropHandleStep s)
  | query object site => some (queryStep client s object site)
  | openCall call metadata fault => some (openCallStep s call metadata fault)
  | track call lane => some (trackStep s call lane)
  | evaluate resolution => some (evaluateStep s resolution)
  | poll => some (pollStep client s)
  | checkFlag => some (checkFlagStep s)
  | lockBell => lockBellStep sight.me s
  | recheckQueue => some (recheckQueueStep s)
  | recheckFlag => some (recheckFlagStep s)
  | settleDown => some (settleDownStep sight.me s)
  | rest => restStep sight.me choice.late s
  | getUp => getUpStep s
  | turn group => some (turnStep client s group)
  | endTurn group => some (endTurnStep s group)
  | shutdown => some (shutdownStep sight.worker s)
  | awaitIdle => awaitIdleStep s
  | close => some (closeStep s)
  | raiseFlag => some (raiseFlagStep s)
  | ringAll => ringStep s Bell.ringAll
  | lockCrew => lockCrewStep sight.me s
  | join workers => joinStep sight.me sight.isDone s workers
  | takeHandlers shutsDown => some (takeHandlersStep s shutsDown)
  | readListeners stopping => some (readListenersStep s stopping)
  | runHandlers stopping => some (runHandlersStep s stopping)
  | askListeners stopping => some (askListenersStep s stopping)
  | openStop listener lane metadata stopping =>
    some (openStopStep s listener lane metadata stopping)
  | awaitListeners stopping => awaitListenersStep s stopping
  | awaitFuture future => awaitFutureStep s future false
  | awaitFutureAtMost future _ => awaitFutureStep s future choice.late

/-- The step of a thread's whole stack.  A reply is handed past what was held on to
for the request. -/
def stackStep (client : Client W) (sight : Sight) (choice : Choice) (s : Shared W) :
    List (Frame W) → Option (Progress W)
  | [] => none
  | .deliver reply :: .waiting role next :: below =>
    some { shared := s.receive reply, frames := .running role (next reply) :: below }
  | .deliver reply :: .letGo _ :: below =>
    some { shared := s, frames := .deliver reply :: below }
  | frame :: below =>
    (frame.step client sight choice s).map fun p => { p with frames := p.frames ++ below }

namespace State

def sight (s : State W) (thread : ThreadId) (worker : Bool) : Sight where
  me := thread
  worker := worker
  isDone := s.isDone
  isAlive := s.isAlive
  mentions := s.mentions

def advance (s : State W) (thread : ThreadId) (p : Progress W) : State W where
  shared := p.shared
  threads :=
    s.threads.modify thread (fun t => { t with stack := p.frames }) ++
      p.spawned.map clientThread

def step (client : Client W) (s : State W) (thread : ThreadId) (choice : Choice := {}) :
    Option (State W) :=
  match s.threads[thread]? with
  | none => none
  | some t =>
    (stackStep client (s.sight thread t.worker) choice s.shared t.stack).map (s.advance thread)

end State
end Strands
