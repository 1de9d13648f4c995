/-
Managed code, and what it may ask of the runtime.

A piece of code is a tree.  Each node is one action that no other thread can cut
in two: it ends, changes the client's own world, waits for the world, or hands a
request to the runtime and goes on with the reply.  Units of work, default
expressions, callbacks, stop handlers and whole threads are all such trees, so
anything a client may do, in any order and at any time, is one of them.

The world `W` is whatever the client keeps for itself; the runtime never looks
into it.
-/
import Strands.Invocation
import Strands.StopReport

namespace Strands

/-- Counts and flags that anyone may read. -/
structure Gauges where
  inFlight : Nat
  queued : Nat
  groups : Nat
  isShutDown : Bool
  deriving DecidableEq, Inhabited

/-- A future as its holders see it. -/
structure FutureView where
  strand : Strand
  returnType : TypeTag
  state : Option Outcome

/-- A request that carries no code of its own. -/
inductive Request where
  | view (future : FutureId)
  /-- Wait until a future's callback has returned. -/
  | wait (future : FutureId)
  | waitAtMost (future : FutureId) (milliseconds : Nat)
  /-- Let go of a future.  The answer is a flag: whether its callback went with it,
  there being nobody left who could complete it. -/
  | forget (future : FutureId)
  /-- Call a method here and now, on a strand of one's own. -/
  | call (receiver : ObjectId) (strand : Strand) (method : String) (args : List Value)
  | query (object : ObjectId)
  | keep (object : ObjectId)
  | drop (object : ObjectId)
  | registerListener (listener : ObjectId)
  | deregisterListener (listener : ObjectId)
  | listeners
  | handlerCount
  | inFlight
  | queued
  | groupCount
  | isShutDown
  /-- Reclaim the groups of dropped receivers. -/
  | sweep
  /-- Run the stop handlers, then stop the listeners. -/
  | gracefulStop
  | stop
  | shutdown
  /-- Take one more handle of the scheduler, if there is one left to take it from.
  The answer is a flag. -/
  | takeHandle
  /-- Drop a handle of the scheduler; dropping the last one shuts it down. -/
  | dropHandle

/-- What a request is answered with. -/
inductive Reply where
  | done
  /-- The client has no handle of the future it asked about. -/
  | unknown
  | future (future : FutureId)
  | invalid (error : ValidationError)
  | placed (future : FutureId) (result : Except ScheduleError Unit)
  | view (view : FutureView)
  /-- The outcome waited for, or nothing if time ran out. -/
  | outcome (outcome : Option Outcome)
  | objects (objects : List ObjectId)
  | number (n : Nat)
  | flag (b : Bool)
  | report (report : StopReport)
  /-- Code that was called on the spot threw a panic. -/
  | panicked (panic : Panic)
  deriving Inhabited

/-- Managed code over a client's world. -/
inductive Code (W : Type) where
  | finish (outcome : Outcome)
  | panic (payload : Panic)
  /-- Change the world, and go on with what it was before. -/
  | act (update : W → W) (next : W → Code W)
  /-- Wait until what can be read satisfies a condition. -/
  | await (ready : Gauges → W → Bool) (next : Code W)
  /-- The same for at most so many milliseconds; go on with whether it came. -/
  | awaitAtMost (milliseconds : Nat) (ready : W → Bool) (next : Bool → Code W)
  | ask (request : Request) (next : Reply → Code W)
  | create (spec : FutureSpec) (callback : Outcome → Code W) (next : Reply → Code W)
  | schedule (place : Placement) (work : Strand → Code W) (future : FutureId)
      (next : Reply → Code W)
  | invoke (mode : Mode) (invocation : Invocation) (callback : Outcome → Code W)
      (next : Reply → Code W)
  | resolve (receiver : ObjectId) (method : String) (args : List Value)
      (parent : Option Strand)
      (continuation : Except DomainError (List Value) → Code W) (next : Reply → Code W)
  | addHandler (handler : Strand → Code W) (next : Code W)
  | spawn (thread : Code W) (next : Code W)

instance {W : Type} : Inhabited (Code W) := ⟨.finish (.ok .nil)⟩

end Strands
