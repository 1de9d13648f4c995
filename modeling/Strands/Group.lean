/-
Groups: one serial lane for each receiver.

A group holds the jobs waiting for one receiver, in order, and a token.  Whoever
finds the token free takes it and has to put the group on the run queue; only
its holder takes jobs out, and gives it back when none are left.

The table maps receivers to their groups.  It is swept when it has grown to its
mark and one more group is needed: entries whose receiver is gone and whose group
is idle are dropped, and the mark becomes twice what is left, but never less than
the first one.
-/
import Strands.RunQueue

namespace Strands

variable {W : Type}

/-- The serial lane of one receiver. -/
structure Group (W : Type) where
  object : ObjectId
  jobs : List (Job W) := []
  /-- Whether somebody holds the token. -/
  taken : Bool := false

namespace Group

/-- The group with a job at the back of its lane, the token taken. -/
def append (g : Group W) (job : Job W) : Group W :=
  { g with jobs := g.jobs ++ [job], taken := true }

/-- The next job for the holder of the token, who gives the token back if there
is none. -/
def next (g : Group W) : Option (Job W) × Group W :=
  match g.jobs with
  | [] => (none, { g with taken := false })
  | job :: rest => (some job, { g with jobs := rest })

/-- The group at the end of a turn: the token is kept while jobs are waiting. -/
def endTurn (g : Group W) : Group W :=
  { g with taken := g.taken && !g.jobs.isEmpty }

/-- The group without its jobs and with a free token. -/
def drain (g : Group W) : Group W := { g with jobs := [], taken := false }

/-- Nothing waits and nobody holds the token. -/
def isIdle (g : Group W) : Bool := !g.taken && g.jobs.isEmpty

end Group

/-- All groups ever made, by number. -/
abbrev Groups (W : Type) := List (Group W)

/-- The mark of a new table, below which no mark falls. -/
def firstMark : Nat := 64

/-- The table of groups in use. -/
structure GroupTable where
  entries : List (ObjectId × GroupId) := []
  /-- The size at which the table is swept before it grows. -/
  mark : Nat := firstMark
  deriving DecidableEq

namespace GroupTable

def get? (t : GroupTable) (receiver : ObjectId) : Option GroupId := t.entries.lookup receiver

def size (t : GroupTable) : Nat := t.entries.length

/-- The table without the entries that need not be kept. -/
def sweep (t : GroupTable) (keep : ObjectId → GroupId → Bool) : GroupTable :=
  let entries := t.entries.filter fun e => keep e.1 e.2
  { entries, mark := max (2 * entries.length) firstMark }

def sweepIfFull (t : GroupTable) (keep : ObjectId → GroupId → Bool) : GroupTable :=
  if t.mark ≤ t.size then t.sweep keep else t

/-- The table with an entry for a receiver that had none. -/
def insert (t : GroupTable) (receiver : ObjectId) (group : GroupId) : GroupTable :=
  { t with entries := t.entries ++ [(receiver, group)] }

theorem size_insert (t : GroupTable) (receiver : ObjectId) (group : GroupId) :
    (t.insert receiver group).size = t.size + 1 := by
  simp [insert, size]

end GroupTable
end Strands
