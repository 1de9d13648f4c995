/-
The state of a scheduler, its clients and its threads.

`Shared` is what threads share; a `State` adds the threads themselves.  A future
lasts while the client keeps a handle of it or something in the state mentions it,
and an object while a handle of it, a future that lasts or something else in the
state does.
-/
import Strands.Bell
import Strands.Frame

namespace Strands

variable {W : Type}

/-- The list of workers, locked while somebody waits for them to end. -/
structure Crew where
  workers : List ThreadId := []
  owner : Option ThreadId := none
  deriving DecidableEq

/-- What threads share. -/
structure Shared (W : Type) where
  world : W
  /-- Whom was asked for its type, the latest last. -/
  queries : List ObjectId := []
  futures : Futures W := []
  queue : RunQueue W := {}
  groups : Groups W := []
  table : GroupTable := {}
  /-- How much work is in flight. -/
  inFlight : Nat := 0
  /-- Whether the workers were told to stop. -/
  flag : Bool := false
  bell : Bell := {}
  crew : Crew := {}
  /-- How many handles of the scheduler there are. -/
  handles : Nat := 1
  registry : Registry W := {}
  /-- The handles of objects that the client keeps. -/
  kept : List ObjectId := []

/-- A thread. -/
structure Thread (W : Type) where
  stack : List (Frame W)
  worker : Bool := false

structure State (W : Type) where
  shared : Shared W
  threads : List (Thread W)

namespace Shared

def gauges (s : Shared W) : Gauges where
  inFlight := s.inFlight
  queued := s.queue.items.length
  groups := s.table.size
  isShutDown := s.flag

def timesAsked (s : Shared W) (object : ObjectId) : Nat := s.queries.count object

def hasHandle (s : Shared W) (future : FutureId) : Bool :=
  match s.futures.get? future with
  | some f => f.kept
  | none => false

/-- Whether the client has a handle of a future that has no outcome. -/
def isPending (s : Shared W) (future : FutureId) : Bool :=
  match s.futures.get? future with
  | some f => f.kept && f.state.isNone
  | none => false

def isIdle (s : Shared W) (group : GroupId) : Bool :=
  match s.groups[group]? with
  | some g => g.isIdle
  | none => true

def modifyGroup (s : Shared W) (group : GroupId) (change : Group W → Group W) : Shared W :=
  { s with groups := s.groups.modify group change }

def modifyFuture (s : Shared W) (future : FutureId) (change : Future W → Future W) : Shared W :=
  { s with futures := s.futures.modify future change }

def addFuture (s : Shared W) (spec : FutureSpec) (callback : Callback W) : Shared W :=
  { s with futures := s.futures ++ [Future.make s.futures.nextId spec callback] }

/-- What is shared once a client has received a reply.  A future in it is the
client's from then on. -/
def receive (s : Shared W) : Reply → Shared W
  | .future future => s.modifyFuture future Future.keep
  | _ => s

/-- Whether a sweep keeps an entry of the table: its receiver is alive, or its
group is not idle. -/
def keeps (s : Shared W) (isAlive : ObjectId → Bool) (object : ObjectId) (group : GroupId) :
    Bool :=
  isAlive object || !s.isIdle group

def sweep (s : Shared W) (isAlive : ObjectId → Bool) : Shared W :=
  { s with table := s.table.sweep (s.keeps isAlive) }

/-- Find a receiver's group, or make one, sweeping the table first if it is full. -/
def locate (s : Shared W) (isAlive : ObjectId → Bool) (receiver : ObjectId) :
    GroupId × Shared W :=
  match s.table.get? receiver with
  | some group => (group, s)
  | none =>
    let group := s.groups.length
    let table := (s.table.sweepIfFull (s.keeps isAlive)).insert receiver group
    (group, { s with groups := s.groups ++ [{ object := receiver }], table })

def queuedJobs (s : Shared W) : List (Job W) :=
  s.queue.items.filterMap fun
    | .job job => some job
    | .group _ => none

def laneJobs (s : Shared W) : List (Job W) := s.groups.flatMap Group.jobs

/-- What the client's handles of objects, the registry and waiting jobs hold on to. -/
def holdings (s : Shared W) : List Holding :=
  { objects := s.kept } :: { objects := s.registry.listeners } ::
    (s.queuedJobs ++ s.laneJobs).map Job.held

end Shared

namespace State

def holdings (s : State W) : List Holding :=
  s.shared.holdings ++ s.threads.flatMap fun t => t.stack.map Frame.held

/-- Whether anybody but the client's own handle holds on to a future. -/
def mentions (s : State W) (future : FutureId) : Bool :=
  s.holdings.any (·.futures.contains future) ||
    s.shared.futures.any (·.waiting.futures.contains future)

/-- Whether a future lasts. -/
def holds (s : State W) (future : FutureId) : Bool :=
  s.shared.hasHandle future || s.mentions future

def isAlive (s : State W) (object : ObjectId) : Bool :=
  s.holdings.any (·.objects.contains object) ||
    s.shared.futures.any fun f => f.held.objects.contains object && s.holds f.strand.id

def isDone (s : State W) (thread : ThreadId) : Bool :=
  match s.threads[thread]? with
  | some t => t.stack.isEmpty
  | none => true

def clientThread (code : Code W) : Thread W := { stack := [.running .thread code] }

def worker : Thread W := { stack := [.poll], worker := true }

/-- A scheduler just started, with one handle, and the threads of its client.
The workers have the first numbers. -/
def start (workers : Nat) (world : W) (kept : List ObjectId) (threads : List (Code W)) :
    State W where
  shared := { world, crew := { workers := List.range workers }, kept }
  threads := List.replicate workers worker ++ threads.map clientThread

end State
end Strands
