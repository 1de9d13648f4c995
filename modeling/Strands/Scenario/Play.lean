/-
Playing a scenario.

The script's own thread does the operations in order.  Those that submit work are
done while all workers are held, so that nothing they submit runs before they have
returned; after each, unless workers are held on, the thread waits until no work is
in flight.  Playing is one run of the machine, and its transcript is read off the
stage in the end.
-/
import Strands.Run
import Strands.Scenario.Perform

namespace Strands.Scenario

def expressions : Expressions Stage := fun method param actions strand args =>
  change (fun w => w.write (.default s!"{method}:{param}" args (w.display strand))) <|
    performAll { strand := some strand, args } actions fun result => result.code

def callActor (object : ObjectId) (strand : Strand) (method : String) (args : List Value) :
    Code Stage :=
  let begun (w : Stage) : Stage :=
    (w.beginCall object).write (.call (w.nameOf object) method args (w.display strand))
  let finished (result : Result) : Code Stage := change (·.endCall object) result.code
  .act begun fun w =>
    match w.cast? object with
    | some (.actor actor) =>
      match actor.bodies.lookup method with
      | some body => performAll { strand := some strand, args, object := some object } body finished
      | none => finished (.ok (.error (.user s!"no method '{method}'")))
    | _ => finished (.ok (.ok .nil))

/-- An object asked for its type, having been asked so many times before. -/
def consult (object : ObjectId) (before : Nat) : Code Stage :=
  look fun w =>
    match w.cast? object with
    | some .opener => request (.deregisterListener object) <| releaseWorkers silence
    | some (.actor actor) =>
      match actor.panicsFrom with
      | some k =>
        if k ≤ before + 1 then .panic (.text s!"no type for {actor.name}") else silence
      | none => silence
    | none => silence

/-- The actors of a scenario, as the runtime sees them. -/
def client : Client Stage where
  consult := consult
  typeOf object w := w.typeOf expressions object
  call := callActor

/-- Wait until no work is in flight and no thread is shutting down. -/
def awaitQuiet (next : Code Stage) : Code Stage :=
  .await (fun g w => g.inFlight = 0 && w.closing = 0) next

def readRuntime (next : Option Reading → Code Stage) : Code Stage :=
  look fun w =>
    if w.hasRuntime then
      number .inFlight fun inFlight => number .groupCount fun groups =>
        flag .isShutDown fun isShutDown => next (some { inFlight, groups, isShutDown })
    else next none

/-- Do an operation, holding all workers meanwhile if it asks for that and the
runtime still runs. -/
def stepOperation (operation : Operation) (next : Reaction → Code Stage) : Code Stage :=
  look fun w =>
    if operation.needsHold && !w.held then
      withHandle next fun next =>
        flag .isShutDown fun isShutDown =>
          if isShutDown then perform {} operation next
          else holdWorkers <| perform {} operation fun reaction => releaseWorkers (next reaction)
    else perform {} operation next

def Answer.ofReaction : Reaction → Answer
  | .ok answer => answer
  | .error panic => .panicked panic.message

def recordStep (answer : Answer) (next : Code Stage) : Code Stage :=
  readRuntime fun reading =>
    change
      (fun w =>
        { w.clearLog with steps := w.steps.push { answer, log := w.takenLog, reading } })
      next

def playSteps (operations : List Operation) (next : Code Stage) : Code Stage :=
  match operations with
  | [] => next
  | operation :: rest =>
    stepOperation operation fun reaction => look fun w =>
      let recorded := recordStep (Answer.ofReaction reaction) (playSteps rest next)
      if w.held then recorded else awaitQuiet recorded

def readFutures (labels : List (String × Ticket)) (read : List (String × Option Outcome))
    (next : List (String × Option Outcome) → Code Stage) : Code Stage :=
  match labels with
  | [] => next read.reverse
  | (label, ticket) :: rest =>
    viewFuture ticket.future fun v => readFutures rest ((label, v.state) :: read) next

def mainThread (operations : List Operation) : Code Stage :=
  playSteps operations <| releaseWorkers <| awaitQuiet <| look fun w =>
    readFutures w.futures.entries [] fun futures =>
      change
        (fun w =>
          let ending : Ending :=
            { log := w.takenLog, futures, fired := w.fired.entries, stats := w.stats }
          { w with ending := some ending })
        silence

def Script.stage (script : Script) : Stage :=
  script.actors.foldl Stage.addActor { workers := script.workers }

/-- The state in which the script's thread begins. -/
def Script.start (script : Script) : State Stage :=
  let stage := script.stage
  .start script.workers stage (stage.handles.entries.map Prod.snd) [mainThread script.operations]

/-- Play a script for at most so many steps of the machine. -/
def Script.play (script : Script) (fuel : Nat) : Option Transcript :=
  let stage := (State.run client fuel script.workers script.start).shared.world
  stage.ending.map fun ending =>
    { workers := script.workers, steps := stage.steps.toList, ending, names := stage.nameOf }

end Strands.Scenario
