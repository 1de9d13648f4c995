/-
Scenarios: clients written down as data.

A scenario has actors, which are objects whose methods are lists of actions, and
a list of operations on one runtime.  Whatever managed code a scenario needs, a
method, an expression for an omitted argument, a callback, a unit of work or a
stop handler, is a list of actions; one of them performs any operation from
inside.  Objects are mentioned by name.
-/
import Strands.ObjectType

namespace Strands.Scenario

/-- A value as it is written in a script. -/
inductive Datum where
  | nil
  | bool (value : Bool)
  | int (value : Int64)
  | float (bits : Binary64)
  | string (text : String)
  | list (items : List Datum)
  | object (name : String)
  deriving Inhabited

/-- Which strand something is made from. -/
inductive Parent where
  | none
  | detached (name : String)
  /-- The strand the operation is performed on, if there is one. -/
  | self
  | future (label : String)
  deriving Inhabited

/-- An invocation, or what a future is made with. -/
structure CallSpec where
  object : Option String := none
  method : Option String := none
  first : List Datum := []
  args : List Datum := []
  strandName : Option String := none
  metadata : Option Metadata := none
  properties : Option (List (String × Datum)) := none
  returnType : TypeTag := .any
  parent : Parent := .none
  deriving Inhabited

/-- What a thread of a scenario does, over and over. -/
inductive Chore where
  | call (mode : Mode) (object method : String) (args : List Datum)
  /-- Register an object and a stop handler, and then perhaps deregister the
  object. -/
  | listener (object : String) (deregisters : Bool)
  deriving Inhabited

/-- A chore and how often it is done. -/
structure ThreadSpec where
  chore : Chore
  times : Nat
  deriving Inhabited

mutual

/-- One action of managed code.  Those of the first group end it. -/
inductive Action where
  | give (value : Datum)
  | arg (index : Nat)
  | args
  /-- Give the sum of the integers among the arguments. -/
  | sum
  | raise (error : DomainError)
  | panic (payload : Panic)
  | strandName
  | property (key : String)
  /-- Add to the object's counter, by a read and a write with a gap between them,
  and give the new count. -/
  | add (n : Int64)
  -- Actions after which the code goes on
  | log (text : String)
  | logStrand
  /-- Wait until enough have arrived, and end with false if they do not come. -/
  | meet (name : String) (count : Nat)
  | perform (operation : Operation)

/-- A parameter, with the expression for its argument if it may be omitted. -/
inductive ParamSpec where
  | mk (name : String) (default : Option (List Action))

/-- A method's signature. -/
inductive MethodSpec where
  | mk (name : String) (isolated rest : Bool) (params : List ParamSpec)

/-- An object's type. -/
inductive TypeSpec where
  | mk (name : String) (isolated : Bool) (methods : List MethodSpec)

/-- An object: its name, its type and its methods' bodies.  Its type cannot be had
from the `panicsFrom`-th time on that it is asked for.  How many of its calls run
at once is not told if it is `unmeasured`. -/
inductive Actor where
  | mk (name : String) (type : TypeSpec) (bodies : List (String × List Action))
      (panicsFrom : Option Nat) (unmeasured : Bool)

/-- An operation on a runtime. -/
inductive Operation where
  | invoke (mode : Mode) (label : String) (call : CallSpec) (callback : List Action)
      (keepsHandle : Bool)
  | describe (call : CallSpec)
  | create (label : String) (call : CallSpec) (callback : List Action) (keepsHandle : Bool)
  | schedule (future : String) (object : Option String) (body : List Action)
  | resolve (label object method : String) (args : List Datum) (parent : Parent)
  | call (object method : String) (args : List Datum) (strandName : String)
  | state (future : String)
  | poll (future : String) (milliseconds : Nat)
  | wait (future : String)
  | alreadyCompleted (future : String)
  | debugFuture (future : String)
  | debugObject (object : String)
  | debugRuntime
  | stats
  | sameObject (a b : String)
  /-- Make actors like one, named in turn, in place of those that had these names. -/
  | manyObjects (stem : String) (count : Nat) (like : Actor)
  | dropObjects (objects : List String)
  /-- Keep all workers busy until they are released. -/
  | hold
  | release
  | barrier
  | registerListener (object : String)
  | deregisterListener (object : String)
  | registerHandler (name : String) (body : List Action)
  | registry
  | gracefulStop
  | stop
  | shutdown
  | beginShutdown
  | dropRuntime
  | sweep
  | threads (threads : List ThreadSpec)

end

instance : Inhabited Actor := ⟨.mk "" (.mk "" false []) [] none false⟩

/-- A runtime of so many workers, its actors, and what is done with it. -/
structure Script where
  workers : Nat
  actors : List Actor
  operations : List Operation

/-- The code of an argument that is omitted, by method, parameter and actions. -/
abbrev Expressions (W : Type) := String → String → List Action → Expression W

namespace TypeSpec

variable {W : Type}

def name : TypeSpec → String
  | mk name _ _ => name

def param (expressions : Expressions W) (method : String) : ParamSpec → Param W
  | .mk name default => { name, default := default.map (expressions method name) }

def method (expressions : Expressions W) : MethodSpec → Method W
  | .mk name isolated rest params =>
    { name, isolated, rest, params := params.map (param expressions name) }

/-- The type that is written in a script, its methods added in order. -/
def type (expressions : Expressions W) : TypeSpec → ObjectType W
  | mk name isolated methods =>
    (methods.map (method expressions)).foldl ObjectType.method { name, isolated }

end TypeSpec

namespace Actor

def name : Actor → String
  | mk name _ _ _ _ => name

def type : Actor → TypeSpec
  | mk _ type _ _ _ => type

def bodies : Actor → List (String × List Action)
  | mk _ _ bodies _ _ => bodies

def panicsFrom : Actor → Option Nat
  | mk _ _ _ panicsFrom _ => panicsFrom

def isUnmeasured : Actor → Bool
  | mk _ _ _ _ unmeasured => unmeasured

def rename (name : String) : Actor → Actor
  | mk _ type bodies panicsFrom unmeasured => mk name type bodies panicsFrom unmeasured

end Actor

namespace Operation

/-- Whether the operation submits work or needs the groups at rest.  Such an
operation of a script is done while all workers are held. -/
def needsHold : Operation → Bool
  | invoke .. | schedule .. | resolve .. | sweep | stop | gracefulStop => true
  | _ => false

def needsRuntime : Operation → Bool
  | describe .. | state .. | poll .. | wait .. | alreadyCompleted .. | debugFuture ..
  | debugObject .. | stats | sameObject .. | manyObjects .. | dropObjects .. | release
  | dropRuntime => false
  | _ => true

end Operation
end Strands.Scenario
