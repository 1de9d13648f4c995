/-
Logs: runs with the states and the threads of their steps.

A history says what happened, but not who did it nor where things stood.  A log says
that too: it has a `Beat` for each step, which is the state the step was taken in and the
thread that took it.  The events of a log are a history (`Log.trace`), every history is
that of a log (`Trace.exists_log`), and `Log.split` takes a log apart at any of its beats
into the log before, the step and the log after.
-/
import Strands.Proofs.Replay

namespace Strands

variable {W : Type}

/-- One step of a run: the state it was taken in and the thread that took it. -/
structure Beat (W : Type) where
  s : State W
  thread : ThreadId

namespace Beat

def event (client : Client W) (beat : Beat W) : Event := beat.s.event client beat.thread

/-- The thread goes on with these frames. -/
def GoesOn (client : Client W) (beat : Beat W) (frames : List (Frame W)) : Prop :=
  ∃ choice s' t, beat.s.step client beat.thread choice = some s' ∧
    s'.threads[beat.thread]? = some t ∧ frames <+: t.stack

/-- The thread goes on with a callback of a future, which is announced after that. -/
def Notifies (client : Client W) (beat : Beat W) (notify : Outcome → Code W) (f : FutureId)
    (outcome : Outcome) : Prop :=
  beat.GoesOn client [.running (.callback outcome) (notify outcome), .announce f]

end Beat

def events (client : Client W) (log : List (Beat W)) : List Event := log.map (Beat.event client)

section

variable (client : Client W)

@[simp] theorem events_nil : events client [] = [] := rfl

@[simp] theorem events_cons (beat : Beat W) (log : List (Beat W)) :
    events client (beat :: log) = beat.event client :: events client log := rfl

@[simp] theorem events_append (a b : List (Beat W)) :
    events client (a ++ b) = events client a ++ events client b := List.map_append

end

section

variable {client : Client W} {a b : List (Beat W)} {e : Event}

theorem mem_events_left (mem : e ∈ events client a) (b : List (Beat W)) :
    e ∈ events client (a ++ b) := by
  rw [events_append]
  exact List.mem_append_left _ mem

theorem mem_events_right (a : List (Beat W)) (mem : e ∈ events client b) :
    e ∈ events client (a ++ b) := by
  rw [events_append]
  exact List.mem_append_right _ mem

theorem mem_events_last {s : State W} {thread : ThreadId} (log : List (Beat W))
    (event : s.event client thread = e) : e ∈ events client (log ++ [⟨s, thread⟩]) :=
  mem_events_right log (List.mem_singleton.2 event.symm)

end

namespace State

/-- The beats of steps of any threads, in any order, and the state they lead to. -/
inductive Log (client : Client W) (start : State W) : List (Beat W) → State W → Prop
  | start : Log client start [] start
  | step {log : List (Beat W)} {s s' : State W} {thread : ThreadId} {choice : Choice} :
      Log client start log s → s.step client thread choice = some s' →
      Log client start (log ++ [⟨s, thread⟩]) s'

namespace Log

variable {client : Client W} {start s : State W} {log : List (Beat W)}

theorem trace (run : Log client start log s) : Trace client start (events client log) s := by
  induction run with
  | start => exact .start
  | step _ taken ih =>
    rw [events_append]
    exact ih.step taken

/-- A run goes on where an earlier one ended. -/
theorem append {s' : State W} {later : List (Beat W)} (run : Log client start log s)
    (next : Log client s later s') : Log client start (log ++ later) s' := by
  induction next with
  | start => simpa using run
  | step _ taken ih =>
    rw [← List.append_assoc]
    exact ih.step taken

theorem one {s s' : State W} {thread : ThreadId} {choice : Choice}
    (taken : s.step client thread choice = some s') : Log client s [⟨s, thread⟩] s' :=
  Log.start.step taken

/-- A log taken apart at one of its beats. -/
theorem split {before after : List (Beat W)} {beat : Beat W}
    (run : Log client start (before ++ beat :: after) s) :
    Log client start before beat.s ∧ ∃ choice s',
      beat.s.step client beat.thread choice = some s' ∧ Log client s' after s := by
  generalize eq : before ++ beat :: after = log at run
  induction run generalizing after with
  | start => simp at eq
  | @step log s s' thread choice run taken ih =>
    rcases List.eq_nil_or_concat after with rfl | ⟨rest, last, rfl⟩
    · obtain ⟨rfl, same⟩ := List.append_inj' eq rfl
      obtain rfl := (List.cons.inj same).1
      exact ⟨run, choice, s', taken, .start⟩
    · have split : (before ++ beat :: rest) ++ [last] = log ++ [⟨s, thread⟩] := by
        simpa using eq
      obtain ⟨same, lasts⟩ := List.append_inj' split rfl
      obtain rfl := (List.cons.inj lasts).1
      obtain ⟨earlier, choice', middle, first, later⟩ := ih same
      refine ⟨earlier, choice', middle, first, ?_⟩
      rw [List.concat_eq_append]
      exact later.step taken

theorem step_of_mem (run : Log client start log s) {beat : Beat W} (mem : beat ∈ log) :
    ∃ choice s' later, beat.s.step client beat.thread choice = some s' ∧ Log client s' later s := by
  obtain ⟨before, after, rfl⟩ := List.append_of_mem mem
  obtain ⟨_, choice, s', taken, next⟩ := run.split
  exact ⟨choice, s', after, taken, next⟩

end Log

namespace Trace

variable {client : Client W} {start s : State W} {history : List Event}

theorem exists_log (trace : Trace client start history s) :
    ∃ log, events client log = history ∧ Log client start log s := by
  induction trace with
  | start => exact ⟨[], rfl, .start⟩
  | @step history s s' thread choice _ taken ih =>
    obtain ⟨log, rfl, run⟩ := ih
    exact ⟨log ++ [⟨s, thread⟩], events_append _ _ _, run.step taken⟩

end Trace

/-! ## Logs by hand -/

def beats (client : Client W) : State W → List ThreadId → List (Beat W)
  | _, [] => []
  | s, thread :: turns =>
    match s.step client thread with
    | some s' => ⟨s, thread⟩ :: s'.beats client turns
    | none => s.beats client turns

theorem log_beats (client : Client W) (s : State W) (turns : List ThreadId) :
    Log client s (s.beats client turns) (s.replay client turns).2 := by
  induction turns generalizing s with
  | nil => exact .start
  | cons thread turns ih =>
    cases taken : s.step client thread with
    | some s' =>
      simp only [beats, replay, taken]
      exact (Log.one taken).append (ih s')
    | none =>
      simp only [beats, replay, taken]
      exact ih s

theorem events_beats (client : Client W) (s : State W) (turns : List ThreadId) :
    events client (s.beats client turns) = (s.replay client turns).1 := by
  induction turns generalizing s with
  | nil => rfl
  | cons thread turns ih =>
    cases taken : s.step client thread with
    | some s' =>
      simp only [beats, replay, taken]
      rw [events_cons, ih s']
      rfl
    | none =>
      simp only [beats, replay, taken]
      exact ih s

end State

namespace Sample

def log (expression : Expression Unit) (code : Code Unit) : List (Beat Unit) :=
  (State.start 1 () [1, 2] [code]).beats (client expression) turns

theorem log_run (expression : Expression Unit) (code : Code Unit) :
    State.Log (client expression) (State.start 1 () [1, 2] [code]) (log expression code)
      (run expression code).2 :=
  State.log_beats _ _ _

theorem events_log (expression : Expression Unit) (code : Code Unit) :
    events (client expression) (log expression code) = (run expression code).1 :=
  State.events_beats _ _ _

end Sample
end Strands
