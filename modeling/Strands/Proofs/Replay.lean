/-
Runs by hand.

`State.replay` lets threads act in an order that is given in advance, passing over those
that cannot, and keeps the events.  It is how a run is written down: `trace_replay` says
that what it gives is a trace, so what holds of all traces can be seen at work on it.

The objects of `Sample.client` are all alike: they have one method, with one parameter
that may be left out, and it returns its argument.
-/
import Strands.Proofs.History

namespace Strands

variable {W : Type}

namespace State

/-- The events of threads that act in an order, and the state they lead to. -/
def replay (client : Client W) : State W → List ThreadId → List Event × State W
  | s, [] => ([], s)
  | s, thread :: turns =>
    match s.step client thread with
    | some s' =>
      let later := s'.replay client turns
      (s.event client thread :: later.1, later.2)
    | none => s.replay client turns

theorem Trace.replay {client : Client W} {start s : State W} {history : List Event}
    (trace : Trace client start history s) (turns : List ThreadId) :
    Trace client start (history ++ (s.replay client turns).1) (s.replay client turns).2 := by
  induction turns generalizing history s with
  | nil => simpa [State.replay] using trace
  | cons thread turns ih =>
    unfold State.replay
    split
    · rename_i s' taken
      have later := ih (trace.step taken)
      rwa [List.append_assoc, List.singleton_append] at later
    · exact ih trace

theorem trace_replay (client : Client W) (start : State W) (turns : List ThreadId) :
    Trace client start (start.replay client turns).1 (start.replay client turns).2 :=
  Trace.start.replay turns

end State

namespace Sample

/-- Objects with a method `m` whose only argument may be left out. -/
def client (expression : Expression Unit) : Client Unit where
  consult _ _ := .finish (.ok .nil)
  typeOf _ _ := ({ name := "Sample" } : ObjectType Unit).method
    { name := "m", params := [{ name := "x", default := some expression }] }
  call _ _ _ args := .finish (.ok (args.headD .nil))

def value : Expression Unit := fun _ _ => .finish (.ok (.int 7))

def failure : Expression Unit := fun _ _ => .finish (.error (.user "no value"))

def done : Code Unit := .finish (.ok .nil)

def withFuture (next : FutureId → Code Unit) : Reply → Code Unit
  | .future f => next f
  | _ => done

def create (next : FutureId → Code Unit) : Code Unit :=
  .create {} (fun _ => done) (withFuture next)

def invoke (next : FutureId → Code Unit) : Code Unit :=
  .invoke .concurrent { receiver := some 1, method := some "m" } (fun _ => done) (withFuture next)

def schedule (place : Placement) (f : FutureId) (next : Code Unit) : Code Unit :=
  .schedule place (fun _ => done) f fun _ => next

/-- A client runs until it has to wait.  Then a worker runs as far as it can, and both once
more. -/
def turns : List ThreadId :=
  List.replicate 60 1 ++ List.replicate 80 0 ++ List.replicate 30 1 ++ List.replicate 20 0

def run (expression : Expression Unit) (code : Code Unit) : List Event × State Unit :=
  (State.start 1 () [1, 2] [code]).replay (client expression) turns

theorem trace_run (expression : Expression Unit) (code : Code Unit) :
    State.Trace (client expression) (State.start 1 () [1, 2] [code]) (run expression code).1
      (run expression code).2 :=
  State.trace_replay _ _ _

end Sample
end Strands
