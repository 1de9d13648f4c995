/-
What a thread still has to do.

A thread is a stack of frames, the innermost first.  The first frame is the
thread's next action on what it shares with others; doing it replaces the frame
by those that follow from it.  Whatever a thread holds for others while it is
busy, a job, a token, a share of the count of work in flight, a handle of the
scheduler, is held by one of its frames, so nothing is ever held by nobody.

`Frame.held` says which objects and futures a frame keeps.  What the maker of a
request holds on to until the request is answered lies in a `letGo` beneath it.
-/
import Strands.Bell
import Strands.Future
import Strands.Group
import Strands.Registry

namespace Strands

variable {W : Type}

/-- Whether a client waits to hear how the placing of a unit went. -/
inductive Asker where
  /-- A client does, who placed a unit for a future. -/
  | client (future : FutureId)
  | nobody
  deriving DecidableEq

/-- A unit of work to be bound to a future and placed. -/
structure Placing (W : Type) where
  place : Placement
  task : Task W
  future : FutureId
  asker : Asker

/-- An invocation with its receiver and method, before it has a future. -/
structure Call (W : Type) where
  mode : Mode
  receiver : ObjectId
  method : String
  invocation : Invocation
  callback : Outcome → Code W

/-- A call that has its future. -/
structure OpenCall where
  receiver : ObjectId
  method : String
  args : List Value
  strand : Strand

/-- A call whose omitted arguments are to be found out. -/
structure Lookup (W : Type) where
  receiver : ObjectId
  method : String
  args : List Value
  parent : Option Strand
  next : Next W

/-- How far a graceful stop has come. -/
structure Stopping (W : Type) where
  handlers : List (Strand → Code W) := []
  listeners : List ObjectId := []
  /-- The listeners that were asked, with the futures of their calls. -/
  asked : List (ObjectId × FutureId) := []
  report : StopReport := {}
  /-- Whether the scheduler is shut down at the end. -/
  shutsDown : Bool

/-- Why an object is asked for its type. -/
inductive Site (W : Type) where
  | metadata (call : Call W)
  | lane (call : OpenCall)
  | omitted (lookup : Lookup W)
  /-- To name the call site of the expressions for them. -/
  | expressions (lookup : Lookup W) (pending : List (Omitted W))
  /-- To see whether and how a listener can be stopped. -/
  | listener (stopping : Stopping W)
  | client

/-- For whom a thread runs managed code, and so what its end means. -/
inductive Role (W : Type) where
  | thread
  | task (job : Job W)
  /-- A callback.  Nothing that happens in it is passed on. -/
  | callback (outcome : Outcome)
  /-- A client's continuation, reached before `resolve` has returned: a panic goes
  to whoever asked. -/
  | continuation
  /-- A client's continuation, reached from a callback. -/
  | continued
  | handler (stopping : Stopping W)
  | query (object : ObjectId) (site : Site W)
  | call (receiver : ObjectId) (args : List Value)

/-- One thing a thread still has to do. -/
inductive Frame (W : Type) where
  | running (role : Role W) (code : Code W)
  /-- Go on with managed code once a request is answered. -/
  | waiting (role : Role W) (next : Reply → Code W)
  | deliver (reply : Reply)
  /-- Let go of what was held on to until here. -/
  | letGo (held : Holding)
  -- Placing a unit of work
  | claim (placing : Placing W)
  | enter (placing : Placing W)
  | push (job : Job W) (asker : Asker)
  | checkOpen (receiver : ObjectId) (job : Job W) (asker : Asker)
  | locate (receiver : ObjectId) (job : Job W) (asker : Asker)
  | append (receiver : ObjectId) (group : GroupId) (job : Job W) (asker : Asker)
  /-- Put a group on the run queue.  Its token is held here. -/
  | submit (group : GroupId) (asker : Asker)
  /-- Refuse all jobs of a group.  Its token is held here. -/
  | drain (group : GroupId)
  | ring
  -- Completing a future
  /-- Give a future its outcome, unless it has one. -/
  | settle (future : FutureId) (outcome : Outcome)
  | announce (future : FutureId)
  /-- One job or call in flight is done with. -/
  | leave
  /-- A job that was refused is done with. -/
  | discard (job : Job W)
  | dropHandle
  -- Dispatching a call
  | query (object : ObjectId) (site : Site W)
  /-- Make the future of a call; it fails at once if its type could not be asked. -/
  | openCall (call : Call W) (metadata : Metadata) (fault : Option Panic)
  /-- Count a call as work in flight, and hold a handle of the scheduler for it,
  while its arguments are completed. -/
  | track (call : OpenCall) (lane : Lane)
  /-- Compute the next omitted argument.  A handle of the scheduler is held here. -/
  | evaluate (resolution : Resolution W)
  -- A worker
  | poll
  /-- See whether to stop, the queue having been empty. -/
  | checkFlag
  | lockBell
  | recheckQueue
  | recheckFlag
  | settleDown
  | rest
  /-- Lock the bell again after resting, and take note of the ringing. -/
  | getUp
  /-- Run the next job of a group.  Its token is held here. -/
  | turn (group : GroupId)
  /-- End a turn.  The group's token is held here. -/
  | endTurn (group : GroupId)
  -- Shutting down
  /-- Return at once if the scheduler is shut down already. -/
  | shutdown
  /-- Wait until no work is in flight, and then close. -/
  | awaitIdle
  /-- Close the run queue and refuse what is left. -/
  | close
  | raiseFlag
  | ringAll
  | lockCrew
  /-- Wait for each of these workers to end, and then unlock the list. -/
  | join (workers : List ThreadId)
  -- Stopping gracefully
  | takeHandlers (shutsDown : Bool)
  | readListeners (stopping : Stopping W)
  | runHandlers (stopping : Stopping W)
  | askListeners (stopping : Stopping W)
  | openStop (listener : ObjectId) (lane : Lane) (metadata : Metadata) (stopping : Stopping W)
  | awaitListeners (stopping : Stopping W)
  -- Waiting for a future
  | awaitFuture (future : FutureId)
  | awaitFutureAtMost (future : FutureId) (milliseconds : Nat)

/-! ## What a thread holds on to -/

namespace Call

def held (call : Call W) : Holding := .ofObject call.receiver ++ call.invocation.held

end Call

namespace OpenCall

def future (call : OpenCall) : FutureId := call.strand.id

def held (call : OpenCall) : Holding :=
  .ofObject call.receiver ++ .ofValues call.args ++ .ofFuture call.future

end OpenCall

namespace Lookup

def held (lookup : Lookup W) : Holding :=
  .ofObject lookup.receiver ++ .ofValues lookup.args ++
    .ofParent lookup.parent ++ lookup.next.held

end Lookup

namespace Stopping

def held (s : Stopping W) : Holding :=
  { objects := s.listeners, futures := s.asked.map Prod.snd }

end Stopping

namespace Site

def held : Site W → Holding
  | metadata call => call.held
  | lane call => call.held
  | omitted lookup => lookup.held
  | expressions lookup _ => lookup.held
  | listener stopping => stopping.held
  | client => {}

end Site

namespace Role

def held : Role W → Holding
  | task job => job.held
  | callback outcome => Outcome.held outcome
  | handler stopping => stopping.held
  | query object site => .ofObject object ++ site.held
  | call receiver args => .ofObject receiver ++ .ofValues args
  | _ => {}

end Role

namespace Placement

def held : Placement → Holding
  | free => {}
  | group receiver => .ofObject receiver

end Placement

namespace Placing

def held (p : Placing W) : Holding := p.place.held ++ p.task.held ++ .ofFuture p.future

end Placing

/-- What a reply holds on to until it is received. -/
def Reply.held : Reply → Holding
  | .future made => .ofFuture made
  | .view seen => seen.strand.held ++ (seen.state.map Outcome.held).getD {}
  | .outcome heard => (heard.map Outcome.held).getD {}
  | .objects known => { objects := known }
  | _ => {}

namespace Frame

def held : Frame W → Holding
  | running role _ => role.held
  | waiting role _ => role.held
  | deliver reply => reply.held
  | letGo held => held
  | claim placing => placing.held
  | enter placing => placing.held
  | push job _ => job.held
  | checkOpen receiver job _ => .ofObject receiver ++ job.held
  | locate receiver job _ => .ofObject receiver ++ job.held
  | append receiver _ job _ => .ofObject receiver ++ job.held
  | settle future outcome => .ofFuture future ++ Outcome.held outcome
  | announce future => .ofFuture future
  | discard job => job.held
  | query object site => .ofObject object ++ site.held
  | openCall call _ _ => call.held
  | track call _ => call.held
  | evaluate resolution => resolution.held
  | readListeners stopping => stopping.held
  | runHandlers stopping => stopping.held
  | askListeners stopping => stopping.held
  | openStop listener _ _ stopping => .ofObject listener ++ stopping.held
  | awaitListeners stopping => stopping.held
  | awaitFuture future => .ofFuture future
  | awaitFutureAtMost future _ => .ofFuture future
  | _ => {}

end Frame
end Strands
