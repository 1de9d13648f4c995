/-
The stage: the world in which a scenario's code runs.

It knows the actors and the labels given to futures, counts calls and callbacks,
keeps the log, and has the gate behind which workers are held.
-/
import Strands.Scenario.Script
import Strands.Scenario.Transcript

namespace Strands.Scenario

/-- Who an object is. -/
inductive Cast where
  | actor (actor : Actor)
  /-- An object that opens the gate when asked for its type. -/
  | opener

/-- What a label stands for. -/
structure Ticket where
  future : FutureId
  /-- Whether the future's callback keeps a handle of the runtime. -/
  keepsHandle : Bool

/-- How an actor has been called so far. -/
structure Tally where
  calls : Nat := 0
  running : Nat := 0
  most : Nat := 0
  counter : Int64 := 0
  deriving Inhabited

structure Stage where
  workers : Nat
  /-- Whether the script still has its handle of the runtime. -/
  hasRuntime : Bool := true
  /-- All objects ever made; the first has number one. -/
  cast : Array Cast := #[]
  tallies : Array Tally := #[]
  /-- The objects the script has handles of, by name. -/
  handles : OrderedMap ObjectId := {}
  futures : OrderedMap Ticket := {}
  /-- How often the callbacks of each label were notified. -/
  fired : OrderedMap Nat := {}
  log : Array Entry := #[]
  held : Bool := false
  gate : Nat := 0
  arrived : Nat := 0
  opened : Nat := 0
  meetings : OrderedMap Nat := {}
  busy : Nat := 0
  /-- How many threads are shutting the runtime down. -/
  closing : Nat := 0
  /-- The integers that threads were given, and how many other outcomes. -/
  ints : List Int64 := []
  others : Nat := 0
  steps : Array StepRecord := #[]
  ending : Option Ending := none

namespace Stage

def cast? (w : Stage) (object : ObjectId) : Option Cast :=
  match object with
  | 0 => none
  | n + 1 => w.cast[n]?

def tally (w : Stage) (object : ObjectId) : Tally :=
  match object with
  | 0 => {}
  | n + 1 => w.tallies.getD n {}

def modifyTally (w : Stage) (object : ObjectId) (change : Tally → Tally) : Stage :=
  { w with tallies := w.tallies.modify (object - 1) change }

def nextObject (w : Stage) : ObjectId := w.cast.size + 1

def addCast (w : Stage) (cast : Cast) : Stage :=
  { w with cast := w.cast.push cast, tallies := w.tallies.push {} }

/-- The stage with one more actor, of which the script has a handle. -/
def addActor (w : Stage) (actor : Actor) : Stage :=
  { w.addCast (.actor actor) with handles := w.handles.insert actor.name w.nextObject }

def alike (stem : String) (count : Nat) (like : Actor) : List Actor :=
  (List.range count).map fun i => like.rename s!"{stem}{i}"

def nameOf (w : Stage) (object : ObjectId) : String :=
  match w.cast? object with
  | some (.actor actor) => actor.name
  | _ => ""

def typeNameOf (w : Stage) (object : ObjectId) : String :=
  match w.cast? object with
  | some (.actor actor) => actor.type.name
  | _ => ""

def typeOf {W : Type} (w : Stage) (expressions : Expressions W) (object : ObjectId) :
    ObjectType W :=
  match w.cast? object with
  | some (.actor actor) => actor.type.type expressions
  | _ => { name := "" }

/-- The name by which a strand is shown.  That of a listener's call carries the
listener's number, and is shown with its name. -/
def shownName (w : Stage) (name : String) : String :=
  let stem := "listener-stop-obj#"
  if name.startsWith stem then
    match (name.drop stem.length).toNat? with
    | some object =>
      match w.cast? object with
      | some (.actor actor) => if name = s!"{stem}{object}" then stem ++ actor.name else name
      | _ => name
    | none => name
  else name

def shown (w : Stage) (strand : Strand) : Strand :=
  { strand with name := strand.name.map w.shownName }

def display (w : Stage) (strand : Strand) : String := (w.shown strand).displayName

def write (w : Stage) (entry : Entry) : Stage := { w with log := w.log.push entry }

def takenLog (w : Stage) : List Entry := arrangeLog w.workers w.log.toList

def clearLog (w : Stage) : Stage := { w with log := #[] }

mutual

/-- The value that a datum stands for; an object that the script has no handle of
stands for nothing. -/
def value (w : Stage) : Datum → Value
  | .nil => .nil
  | .bool b => .bool b
  | .int n => .int n
  | .float bits => .float bits
  | .string s => .string s
  | .list items => .list (w.values items)
  | .object name =>
    match w.handles.get? name with
    | some object => .object object
    | none => .nil

def values (w : Stage) : List Datum → List Value
  | [] => []
  | d :: ds => w.value d :: w.values ds

end

def properties (w : Stage) (entries : List (String × Datum)) : Properties :=
  .ofList (entries.map fun e => (e.1, w.value e.2))

/-! ## Counting -/

def fire (w : Stage) (label : String) : Stage :=
  { w with fired := w.fired.insert label ((w.fired.get? label).getD 0 + 1) }

def beginCall (w : Stage) (object : ObjectId) : Stage :=
  w.modifyTally object fun t =>
    { t with calls := t.calls + 1, running := t.running + 1, most := max t.most (t.running + 1) }

def endCall (w : Stage) (object : ObjectId) : Stage :=
  w.modifyTally object fun t => { t with running := t.running - 1 }

def setCounter (w : Stage) (object : ObjectId) (n : Int64) : Stage :=
  w.modifyTally object fun t => { t with counter := n }

def stats (w : Stage) : List (String × Stat) :=
  (w.cast.zip w.tallies).toList.filterMap fun
    | (.actor actor, t) =>
      some (actor.name,
        { calls := t.calls
          most := if actor.isUnmeasured then none else some t.most
          counter := t.counter })
    | (.opener, _) => none

def arrivals (w : Stage) (name : String) : Nat := (w.meetings.get? name).getD 0

def arrive (w : Stage) (name : String) : Stage :=
  { w with meetings := w.meetings.insert name (w.arrivals name + 1) }

def count (w : Stage) (outcome : Option Outcome) : Stage :=
  match outcome with
  | some (.ok (.int n)) => { w with ints := n :: w.ints }
  | _ => { w with others := w.others + 1 }

/-! ## The gate -/

def setGate (w : Stage) : Stage := { w with gate := w.gate + 1, arrived := 0, held := true }

def openGate (w : Stage) : Stage := { w with opened := w.gate, held := false }

/-! ## Labels -/

def setTicket (w : Stage) (label : String) (ticket : Ticket) : Stage :=
  { w with futures := w.futures.insert label ticket }

end Stage
end Strands.Scenario
