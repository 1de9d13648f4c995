/-
What a scenario leaves in writing.

Each operation has an answer.  What managed code does is logged.  With one worker
the log is in the order in which things happened.  With more, that order is partly
chance, and entries are sorted by their first three texts, those with the same
texts staying in order.
-/
import Strands.ObjectType

namespace Strands.Scenario

/-- What was asked for and not done. -/
inductive Refusal where
  | validation (error : ValidationError)
  | schedule (error : ScheduleError)
  | future (error : FutureError)

def Refusal.message : Refusal → String
  | validation error => error.message
  | schedule error => error.message
  | future error => error.message

/-- What can be told of an invocation before it is made. -/
structure Description where
  validated : Except ValidationError (String × String)
  isolation : Except ValidationError Isolation
  args : List Value
  strandName : Option String
  returnType : TypeTag
  hasMetadata : Bool
  hasProperties : Bool
  hasParent : Bool

/-- How an actor was called: how often, how many calls ran at once at most, if
that was measured, and its counter. -/
structure Stat where
  calls : Nat
  most : Option Nat
  counter : Int64

/-- What an operation is answered with. -/
inductive Answer where
  | nothing
  | text (text : String)
  | number (n : Nat)
  | future (view : FutureView)
  | refused (refusal : Refusal)
  | outcome (outcome : Outcome)
  | state (state : Option Outcome)
  | description (description : Description)
  | registry (listeners : List String) (handlers : Nat) (shown : String)
  | report (report : StopReport)
  | stats (stats : List (String × Stat))
  | comparison (results : List Bool)
  | tally (ints : List Int64) (other : Nat)
  | panicked (message : String)

/-- An entry of the log. -/
inductive Entry where
  | call (object method : String) (args : List Value) (strand : String)
  | default (what : String) (args : List Value) (strand : String)
  | log (text : String)
  | strand (strand : Strand)
  | performed (answer : Answer)
  | callback (label : String) (outcome : Outcome)
  | handler (name strand : String) (id : StrandId)
  | resolved (label : String) (result : Except DomainError (List Value))

namespace Entry

/-- The first three texts of an entry; what is not a text counts as empty. -/
def key : Entry → String × String × String
  | call object method _ _ => ("call", object, method)
  | default what _ _ => ("default", what, "")
  | log text => ("log", text, "")
  | strand _ => ("strand", "", "")
  | performed (.text text) => ("op", text, "")
  | performed _ => ("op", "", "")
  | callback label _ => ("cb", label, "")
  | handler name site _ => ("handler", name, site)
  | resolved label _ => ("resolved", label, "")

def le (a b : Entry) : Bool :=
  let (a₁, a₂, a₃) := a.key
  let (b₁, b₂, b₃) := b.key
  if a₁ ≠ b₁ then a₁ < b₁ else if a₂ ≠ b₂ then a₂ < b₂ else !(b₃ < a₃)

end Entry

def arrangeLog (workers : Nat) (log : List Entry) : List Entry :=
  if workers ≤ 1 then log else log.mergeSort Entry.le

/-- What was read off the runtime after a step. -/
structure Reading where
  inFlight : Nat
  groups : Nat
  isShutDown : Bool

/-- An operation's answer, what was logged until all was quiet again, and what was
then read off the runtime, if there still was one. -/
structure StepRecord where
  answer : Answer
  log : List Entry
  reading : Option Reading

/-- What is left in the end. -/
structure Ending where
  log : List Entry
  futures : List (String × Option Outcome)
  fired : List (String × Nat)
  stats : List (String × Stat)

/-- The record of a whole scenario. -/
structure Transcript where
  workers : Nat
  steps : List StepRecord
  ending : Ending
  names : ObjectId → String

end Strands.Scenario
