/-
The life of a worker.

A worker takes entries from the run queue until it finds the queue empty and the
flag raised.  A free job is run at once.  A group gets one turn: its next job is
run, and if more are waiting the group goes to the back of the queue.  Before a
worker rests it looks at the queue and the flag once more with the bell locked,
so that no ringing between its first look and its rest goes unheard.
-/
import Strands.Step.Placing

namespace Strands

variable {W : Type}

def pollStep (client : Client W) (s : Shared W) : Progress W :=
  match s.queue.pop with
  | some (.job job, queue) =>
    { shared := { s with queue }, frames := job.run client s.futures ++ [.poll] }
  | some (.group group, queue) => { shared := { s with queue }, frames := [.turn group, .poll] }
  | none => { shared := s, frames := [.checkFlag] }

def checkFlagStep (s : Shared W) : Progress W :=
  { shared := s, frames := if s.flag then [] else [.lockBell] }

def lockBellStep (me : ThreadId) (s : Shared W) : Option (Progress W) :=
  match s.bell.owner with
  | none => some { shared := { s with bell := s.bell.lock me }, frames := [.recheckQueue] }
  | some _ => none

def recheckQueueStep (s : Shared W) : Progress W :=
  if s.queue.isEmpty then { shared := s, frames := [.recheckFlag] }
  else { shared := { s with bell := s.bell.unlock }, frames := [.poll] }

def recheckFlagStep (s : Shared W) : Progress W :=
  if s.flag then { shared := { s with bell := s.bell.unlock } }
  else { shared := s, frames := [.settleDown] }

def settleDownStep (me : ThreadId) (s : Shared W) : Progress W :=
  if s.bell.rung then { shared := { s with bell := s.bell.quiet }, frames := [.poll] }
  else { shared := { s with bell := s.bell.rest me }, frames := [.rest] }

/-- Rest until roused, or for as long as a rest may take. -/
def restStep (me : ThreadId) (late : Bool) (s : Shared W) : Option (Progress W) :=
  if s.bell.resting.contains me then
    if late then some { shared := { s with bell := s.bell.stir me }, frames := [.getUp] }
    else none
  else some { shared := s, frames := [.getUp] }

def getUpStep (s : Shared W) : Option (Progress W) :=
  match s.bell.owner with
  | none => some { shared := { s with bell := s.bell.quiet }, frames := [.poll] }
  | some _ => none

def turnStep (client : Client W) (s : Shared W) (group : GroupId) : Progress W :=
  match s.groups[group]? with
  | some g =>
    { shared := s.modifyGroup group fun g => g.next.2
      frames :=
        match g.next.1 with
        | some job => job.run client s.futures ++ [.endTurn group]
        | none => [] }
  | none => { shared := s }

/-- End a turn.  While jobs are waiting the group is put on the queue again. -/
def endTurnStep (s : Shared W) (group : GroupId) : Progress W :=
  match s.groups[group]? with
  | some g =>
    { shared := s.modifyGroup group Group.endTurn
      frames := if g.jobs.isEmpty then [] else [.submit group .nobody] }
  | none => { shared := s }

end Strands
