/-
Actions and operations as managed code.

`performAll` is the code of a list of actions, and `perform` that of one
operation; each is followed by what its caller makes of the result.  Whatever an
operation hands to the runtime, a callback, a unit of work or a stop handler, is
again a list of actions.  A panic of code that an operation calls on the spot ends
the actions around it.
-/
import Strands.Inspect
import Strands.Scenario.Stage

namespace Strands.Scenario

/-- Where managed code runs: its strand, its arguments, and the object whose
method it is. -/
structure Scene where
  strand : Option Strand := none
  args : List Value := []
  object : Option ObjectId := none

/-- How managed code ends. -/
abbrev Result := Except Panic Outcome

/-- What comes of an operation: an answer, or a panic that runs through it. -/
abbrev Reaction := Except Panic Answer

def Result.code {W : Type} : Result → Code W
  | .ok outcome => .finish outcome
  | .error panic => .panic panic

def silence {W : Type} : Code W := .finish (.ok .nil)

def look (next : Stage → Code Stage) : Code Stage := .act id next

def change (update : Stage → Stage) (next : Code Stage) : Code Stage :=
  .act update fun _ => next

def request (r : Request) (next : Code Stage) : Code Stage := .ask r fun _ => next

/-- Make a request that is answered with a number. -/
def number (r : Request) (next : Nat → Code Stage) : Code Stage :=
  .ask r fun
    | .number n => next n
    | _ => next 0

def flag (r : Request) (next : Bool → Code Stage) : Code Stage :=
  .ask r fun
    | .flag b => next b
    | _ => next false

def viewFuture (future : FutureId) (next : FutureView → Code Stage) : Code Stage :=
  .ask (.view future) fun
    | .view view => look fun w => next { view with strand := w.shown view.strand }
    | _ => silence

/-- What an operation on a future that has no label is answered with. -/
def noFuture : Answer := .nothing

def withFuture (label : String) (otherwise : Code Stage) (next : FutureId → Code Stage) :
    Code Stage :=
  look fun w =>
    match w.futures.get? label with
    | some ticket => next ticket.future
    | none => otherwise

def withObject (name : String) (otherwise : Code Stage) (next : ObjectId → Code Stage) :
    Code Stage :=
  look fun w =>
    match w.handles.get? name with
    | some object => next object
    | none => otherwise

/-- Take a handle of the scheduler for a callback that keeps one. -/
def takeHandleIf (keeps : Bool) (next : Code Stage) : Code Stage :=
  if keeps then request .takeHandle next else next

def dropHandleIf (keeps : Bool) (next : Code Stage) : Code Stage :=
  if keeps then request .dropHandle next else next

/-- Put a future under a label, and let go of one that was there.  If its callback
goes with it, so does the handle that this one kept. -/
def keepFuture (label : String) (ticket : Ticket) (next : Code Stage) : Code Stage :=
  .act (·.setTicket label ticket) fun w =>
    match w.futures.get? label with
    | some earlier =>
      flag (.forget earlier.future) fun gone => dropHandleIf (gone && earlier.keepsHandle) next
    | none => next

/-- Do something with a handle of the scheduler of its own, if there is still one
to take it from. -/
def withHandle (next : Reaction → Code Stage) (act : (Reaction → Code Stage) → Code Stage) :
    Code Stage :=
  flag .takeHandle fun taken =>
    if taken then act fun reaction => request .dropHandle (next reaction)
    else next (.ok (.text "no runtime"))

def withParent (scene : Scene) (parent : Parent) (next : Option Strand → Code Stage) :
    Code Stage :=
  match parent with
  | .none => next none
  | .detached name => next (some (.detached name))
  | .self => next scene.strand
  | .future label =>
    withFuture label (next none) fun future =>
      .ask (.view future) fun
        | .view view => next (some view.strand)
        | _ => next none

def invocation (w : Stage) (spec : CallSpec) (parent : Option Strand) : Invocation where
  receiver := spec.object.bind w.handles.get?
  method := spec.method
  args := w.values spec.first ++ w.values spec.args
  strandName := spec.strandName
  metadata := spec.metadata
  properties := spec.properties.map w.properties
  returnType := spec.returnType
  parent := parent

/-- What the future that is written in a script is made with. -/
def futureSpec (w : Stage) (spec : CallSpec) (parent : Option Strand) : FutureSpec where
  strandName := spec.strandName
  metadata := spec.metadata.getD {}
  properties := (spec.properties.map w.properties).getD {}
  returnType := spec.returnType
  parent := parent.map Strand.id

/-- Register an object that opens the gate and is gone when asked for its type.
Being the last to be asked, it is reached when every listener was asked. -/
def registerOpener (next : Code Stage) : Code Stage :=
  .act (·.addCast .opener) fun w => request (.registerListener w.nextObject) next

def describe (scene : Scene) (spec : CallSpec) (next : Reaction → Code Stage) : Code Stage :=
  withParent scene spec.parent fun parent => look fun w =>
    let inv := invocation w spec parent
    let description (isolation : Except ValidationError Isolation) : Answer :=
      .description {
        validated := inv.validate.map fun (object, method) => (w.nameOf object, method)
        isolation
        args := inv.args
        strandName := inv.strandName
        returnType := inv.returnType
        hasMetadata := inv.metadata.isSome
        hasProperties := inv.properties.isSome
        hasParent := inv.parent.isSome }
    match inv.validate with
    | .error e => next (.ok (description (.error e)))
    | .ok (object, method) =>
      .ask (.query object) fun
        | .panicked panic => next (.error panic)
        | _ =>
          look fun w =>
            let type : ObjectType Stage := w.typeOf (fun _ _ _ _ _ => silence) object
            next (.ok (description (.ok (type.isolation method))))

/-- Ask objects for their types, one after another, up to one that panics. -/
def queryAll (objects : List ObjectId) (next : Except Panic Unit → Code Stage) : Code Stage :=
  match objects with
  | [] => next (.ok ())
  | object :: rest =>
    .ask (.query object) fun
      | .panicked panic => next (.error panic)
      | _ => queryAll rest next

/-- Show a future.  The objects in its outcome are asked for their types. -/
def showFuture (future : FutureId) (next : Reaction → Code Stage) : Code Stage :=
  viewFuture future fun v =>
    queryAll ((v.state.map Outcome.held).getD {}).objects fun
      | .error panic => next (.error panic)
      | .ok _ => look fun w =>
        let names (object : ObjectId) := (w.nameOf object, w.typeNameOf object)
        next (.ok (.text (Inspect.future names v.strand.displayName v)))

def showObject (object : ObjectId) (next : Reaction → Code Stage) : Code Stage :=
  queryAll [object] fun
    | .error panic => next (.error panic)
    | .ok _ => look fun w =>
      next (.ok (.text (Inspect.object (fun o => (w.nameOf o, w.typeNameOf o)) object)))

def showRuntime (next : Answer → Code Stage) : Code Stage :=
  number .inFlight fun inFlight => number .queued fun queued =>
    number .groupCount fun groups => flag .isShutDown fun isShutDown => look fun w =>
      next (.text (Inspect.runtime w.workers { inFlight, queued, groups, isShutDown }))

def readRegistry (next : Answer → Code Stage) : Code Stage :=
  .ask .listeners fun
    | .objects listeners => number .handlerCount fun handlers => look fun w =>
      next (.registry (listeners.map w.nameOf) handlers
        (Inspect.registry listeners.length handlers))
    | _ => next .nothing

def gateWork (_ : Strand) : Code Stage :=
  .act (fun w => { w with arrived := w.arrived + 1 }) fun w =>
    .await (fun _ now => w.gate ≤ now.opened) silence

def sendToGate : Nat → Code Stage → Code Stage
  | 0, next => next
  | n + 1, next =>
    .create { strandName := some "gate" } (fun _ => silence) fun
      | .future future => .schedule .free gateWork future fun _ => sendToGate n next
      | _ => next

/-- Hold all workers.  Nothing is done if they are held or the runtime is shut
down. -/
def holdWorkers (next : Code Stage) : Code Stage :=
  flag .isShutDown fun isShutDown => look fun w =>
    if isShutDown || w.held then next
    else
      change Stage.setGate <| sendToGate w.workers <|
        .await (fun _ now => now.arrived = now.workers) next

def releaseWorkers (next : Code Stage) : Code Stage := change Stage.openGate next

/-- The requests that keep or drop several objects, one after another. -/
def requests (rs : List Request) (next : Code Stage) : Code Stage :=
  rs.foldr request next

/-- Drop the handles of objects by their names; go on with how many there were. -/
def dropObjects (names : List String) (next : Nat → Code Stage) : Code Stage :=
  match names with
  | [] => next 0
  | name :: rest =>
    withObject name (dropObjects rest next) fun object =>
      change (fun w => { w with handles := w.handles.erase name }) <|
        request (.drop object) <| dropObjects rest fun n => next (n + 1)

def doChore (chore : Chore) : Nat → Code Stage → Code Stage
  | 0, next => next
  | n + 1, next =>
    match chore with
    | .call mode object method args =>
      look fun w =>
        let inv : Invocation :=
          { receiver := w.handles.get? object
            method := some method
            args := w.values args }
        .invoke mode inv (fun _ => silence) fun
          | .future future =>
            .ask (.wait future) fun
              | .outcome outcome =>
                change (·.count outcome) <| request (.forget future) <| doChore chore n next
              | _ => doChore chore n next
          | _ => change (·.count none) <| doChore chore n next
    | .listener name deregisters =>
      withObject name (doChore chore n next) fun object =>
        request (.registerListener object) <|
          .addHandler (fun _ => silence) <|
            if deregisters then
              request (.deregisterListener object) <| doChore chore n next
            else doChore chore n next

/-- Start threads for chores, and go on when all have ended. -/
def doChores (threads : List ThreadSpec) (next : Code Stage) : Code Stage :=
  change (fun w => { w with busy := threads.length, ints := [], others := 0 }) <|
    threads.foldr
      (fun t rest =>
        .spawn
          (doChore t.chore t.times <|
            change (fun w => { w with busy := w.busy - 1 }) silence)
          rest)
      (.await (fun _ w => w.busy = 0) next)

/-- Where a callback's actions run: on no strand, with the value of a success. -/
def callbackScene : Outcome → Scene
  | .ok value => { args := [value] }
  | .error _ => {}

def beginCallback (label : String) (outcome : Outcome) (next : Code Stage) : Code Stage :=
  change (fun w => (w.fire label).write (.callback label outcome)) next

mutual

def performAll (scene : Scene) (actions : List Action) (next : Result → Code Stage) :
    Code Stage :=
  match actions with
  | [] => next (.ok (.ok .nil))
  | .give datum :: _ => look fun w => next (.ok (.ok (w.value datum)))
  | .arg index :: _ => next (.ok (.ok (scene.args.getD index .nil)))
  | .args :: _ => next (.ok (.ok (.list scene.args)))
  | .sum :: _ =>
    next (.ok (.ok (.int (scene.args.foldl (fun n v => n + (v.int?.getD 0)) 0))))
  | .raise error :: _ => next (.ok (.error error))
  | .panic payload :: _ => next (.error payload)
  | .strandName :: _ =>
    look fun w => next (.ok (.ok ((scene.strand.map fun s => .string (w.display s)).getD .nil)))
  | .property key :: _ =>
    next (.ok (.ok ((scene.strand.bind fun s => s.properties.get? key).getD .nil)))
  | .add n :: _ =>
    match scene.object with
    | none => next (.ok (.ok .nil))
    | some object =>
      look fun w =>
        let sum := (w.tally object).counter + n
        change (·.setCounter object sum) <| next (.ok (.ok (.int sum)))
  | .log text :: rest => change (·.write (.log text)) <| performAll scene rest next
  | .logStrand :: rest =>
    match scene.strand with
    | none => performAll scene rest next
    | some strand =>
      change (fun w => w.write (.strand (w.shown strand))) <| performAll scene rest next
  | .meet name count :: rest =>
    change (·.arrive name) <|
      .awaitAtMost 2000 (fun w => count ≤ w.arrivals name) fun
        | true => performAll scene rest next
        | false => next (.ok (.ok (.bool false)))
  | .perform operation :: rest =>
    perform scene operation fun
      | .ok answer => change (·.write (.performed answer)) <| performAll scene rest next
      | .error panic => next (.error panic)
termination_by structural actions

/-- The code of an operation.  One that needs a runtime holds on to it meanwhile. -/
def perform (scene : Scene) (operation : Operation) (next : Reaction → Code Stage) :
    Code Stage :=
  let act (next : Reaction → Code Stage) : Code Stage :=
    let answer (a : Answer) : Code Stage := next (.ok a)
    match operation with
    | .invoke mode label spec callback keepsHandle =>
      let notify (outcome : Outcome) : Code Stage :=
        beginCallback label outcome <|
          performAll (callbackScene outcome) callback fun result =>
            dropHandleIf keepsHandle result.code
      withParent scene spec.parent fun parent => look fun w =>
        takeHandleIf keepsHandle <|
          .invoke mode (invocation w spec parent) notify fun
            | .future future =>
              keepFuture label { future, keepsHandle } <|
                viewFuture future fun v => answer (.future v)
            | .invalid error => answer (.refused (.validation error))
            | _ => answer .nothing
    | .create label spec callback keepsHandle =>
      let notify (outcome : Outcome) : Code Stage :=
        beginCallback label outcome <|
          performAll (callbackScene outcome) callback fun result =>
            dropHandleIf keepsHandle result.code
      withParent scene spec.parent fun parent => look fun w =>
        takeHandleIf keepsHandle <|
          .create (futureSpec w spec parent) notify fun
            | .future future =>
              keepFuture label { future, keepsHandle } <|
                viewFuture future fun v => answer (.future v)
            | _ => answer .nothing
    | .schedule label object body =>
      withFuture label (answer noFuture) fun future => look fun w =>
        let place :=
          match object.bind w.handles.get? with
          | some object => Placement.group object
          | none => .free
        .schedule place
          (fun strand => performAll { strand := some strand } body fun result => result.code)
          future fun
            | .placed _ (.ok _) => answer (.text "scheduled")
            | .placed _ (.error error) => answer (.refused (.schedule error))
            | _ => answer .nothing
    | .registerHandler name body =>
      .addHandler
        (fun strand =>
          change (fun w => w.write (.handler name (w.display strand) strand.id)) <|
            performAll { strand := some strand } body fun result => result.code)
        (answer .nothing)
    | .describe spec => describe scene spec next
    | .resolve label object method args parent =>
      withParent scene parent fun parent =>
        withObject object (answer .nothing) fun object => look fun w =>
          .resolve object method (w.values args) parent
            (fun result => change (·.write (.resolved label result)) silence) fun
              | .panicked panic => answer (.panicked panic.message)
              | _ => answer (.text "returned")
    | .call object method args strandName =>
      withObject object (answer .nothing) fun object => look fun w =>
        .ask (.call object (.detached strandName) method (w.values args)) fun
          | .outcome (some outcome) => answer (.outcome outcome)
          | .panicked panic => next (.error panic)
          | _ => answer .nothing
    | .state label =>
      withFuture label (answer noFuture) fun future =>
        viewFuture future fun v => answer (.state v.state)
    | .poll label milliseconds =>
      withFuture label (answer noFuture) fun future =>
        .ask (.waitAtMost future milliseconds) fun
          | .outcome (some outcome) => answer (.outcome outcome)
          | _ => answer .nothing
    | .wait label =>
      withFuture label (answer noFuture) fun future =>
        .ask (.wait future) fun
          | .outcome (some outcome) => answer (.outcome outcome)
          | _ => answer .nothing
    | .alreadyCompleted label =>
      withFuture label (answer noFuture) fun future =>
        answer (.refused (.future (.alreadyCompleted future)))
    | .debugFuture label =>
      withFuture label (answer noFuture) fun future => showFuture future next
    | .debugObject name =>
      withObject name (answer .nothing) fun object => showObject object next
    | .debugRuntime => showRuntime answer
    | .stats => look fun w => answer (.stats w.stats)
    | .sameObject a b =>
      withObject a (answer .nothing) fun a => withObject b (answer .nothing) fun b =>
        answer (.comparison [a == b, a == b, a == b, decide (a < b)])
    | .manyObjects stem count like =>
      let actors := Stage.alike stem count like
      .act (fun w => actors.foldl Stage.addActor w) fun w =>
        let replaced := actors.filterMap fun actor => w.handles.get? actor.name
        requests (replaced.map .drop) <|
          requests ((List.range count).map fun i => .keep (w.nextObject + i)) <|
            answer .nothing
    | .dropObjects names => dropObjects names fun n => answer (.number n)
    | .hold => holdWorkers (answer .nothing)
    | .release => releaseWorkers (answer .nothing)
    | .barrier => holdWorkers <| releaseWorkers <| answer .nothing
    | .registerListener name =>
      withObject name (answer .nothing) fun object =>
        request (.registerListener object) (answer .nothing)
    | .deregisterListener name =>
      withObject name (answer .nothing) fun object =>
        request (.deregisterListener object) (answer .nothing)
    | .registry => readRegistry answer
    | .gracefulStop =>
      registerOpener <| .ask .gracefulStop fun
        | .report report => answer (.report report)
        | _ => answer .nothing
    | .stop =>
      registerOpener <| .ask .stop fun
        | .report report => answer (.report report)
        | _ => answer .nothing
    | .shutdown => releaseWorkers <| request .shutdown (answer .nothing)
    | .beginShutdown =>
      change (fun w => { w with closing := w.closing + 1 }) <|
        request .takeHandle <|
          .spawn
            (request .shutdown <| request .dropHandle <|
              change (fun w => { w with closing := w.closing - 1 }) silence)
            (answer .nothing)
    | .dropRuntime =>
      .act (fun w => { w with hasRuntime := false }) fun w =>
        if w.hasRuntime then request .dropHandle (answer .nothing) else answer .nothing
    | .sweep => number .sweep fun n => answer (.number n)
    | .threads threads =>
      doChores threads <| look fun w =>
        change Stage.clearLog (answer (.tally (w.ints.mergeSort (· ≤ ·)) w.others))
  if operation.needsRuntime then withHandle next act else act next
termination_by structural operation

end

end Strands.Scenario
