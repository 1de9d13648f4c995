/-
Runs of the machine.

`Reachable` is every state that some interleaving leads to.  `State.run` is one
interleaving among them: a thread goes on for as long as it can, then the next
one that can takes over, and waits that are limited in time come to their end
only when nothing else can happen.
-/
import Strands.Step

namespace Strands

variable {W : Type}

namespace State

/-- The states that steps of any threads, in any order, lead to. -/
inductive Reachable (client : Client W) (start : State W) : State W → Prop where
  | start : Reachable client start start
  | step {s s' : State W} {thread : ThreadId} {choice : Choice} :
      Reachable client start s → s.step client thread choice = some s' →
      Reachable client start s'

/-- How long the thread's wait may take, if it is limited in time. -/
def patience (t : Thread W) : Option Nat :=
  match t.stack with
  | .running _ (.awaitAtMost milliseconds _ _) :: _ => some milliseconds
  | .awaitFutureAtMost _ milliseconds :: _ => some milliseconds
  | _ => none

/-- The thread whose limited wait ends first, and its length. -/
def leastPatient (s : State W) : Option (Nat × ThreadId) :=
  s.threads.zipIdx.foldl
    (fun found (t, i) =>
      match patience t, found with
      | some ms, some (least, _) => if ms < least then some (ms, i) else found
      | some ms, none => some (ms, i)
      | none, _ => found)
    none

/-- The first of the threads that can go on, and the state after it has. -/
def stepFirst (client : Client W) (s : State W) : List ThreadId → Option (ThreadId × State W)
  | [] => none
  | thread :: rest =>
    match s.step client thread with
    | some s' => some (thread, s')
    | none => s.stepFirst client rest

/-- One step of the run in which `current` has the turn. -/
def next (client : Client W) (s : State W) (current : ThreadId) :
    Option (ThreadId × State W) :=
  match s.step client current with
  | some s' => some (current, s')
  | none =>
    match s.stepFirst client (List.range s.threads.length) with
    | some found => some found
    | none =>
      match s.leastPatient with
      | some (_, thread) => (s.step client thread { late := true }).map (thread, ·)
      | none => none

/-- The state after at most so many steps, `current` having the first turn. -/
def run (client : Client W) : Nat → ThreadId → State W → State W
  | 0, _, s => s
  | fuel + 1, current, s =>
    match s.next client current with
    | some (thread, s') => run client fuel thread s'
    | none => s

theorem reachable_of_next {client : Client W} {start s s' : State W} {current thread : ThreadId}
    (h : Reachable client start s) (hs : s.next client current = some (thread, s')) :
    Reachable client start s' := by
  have first : ∀ threads : List ThreadId,
      s.stepFirst client threads = some (thread, s') → Reachable client start s' := by
    intro threads
    induction threads with
    | nil => intro found; simp [stepFirst] at found
    | cons t rest ih =>
      intro found
      simp only [stepFirst] at found
      split at found
      · rename_i next taken
        cases found
        exact .step h taken
      · exact ih found
  unfold next at hs
  split at hs
  · rename_i next taken
    cases hs
    exact .step h taken
  · split at hs
    · rename_i found taken
      cases hs
      exact first _ taken
    · split at hs
      · rename_i least waiting _
        obtain ⟨next, taken, eq⟩ := Option.map_eq_some_iff.1 hs
        cases eq
        exact .step h taken
      · cases hs

/-- The end of a run is a reachable state. -/
theorem reachable_run {client : Client W} {start s : State W} (h : Reachable client start s)
    (fuel : Nat) (current : ThreadId) : Reachable client start (run client fuel current s) := by
  induction fuel generalizing s current with
  | zero => exact h
  | succ fuel ih =>
    unfold run
    split
    · rename_i thread s' taken
      exact ih (reachable_of_next h taken) thread
    · exact h

end State
end Strands
