/-
How values, errors, futures and runtimes are shown to a person who looks for
faults: the name of the kind, and the parts by name.
-/
import Strands.Code
import Strands.Text.Quoted
import Strands.Text.Shortest

namespace Strands.Inspect

def record (name : String) (parts : List (String × String)) : String :=
  let inside := ", ".intercalate (parts.map fun p => s!"{p.1}: {p.2}")
  s!"{name} \x7b {inside} \x7d"

def option (shown : Option String) : String :=
  match shown with
  | none => "None"
  | some s => s!"Some({s})"

def bool (b : Bool) : String := if b then "true" else "false"

/-- How an object is shown: by its identity and the name of its type. -/
abbrev ObjectNames := ObjectId → String × String

def object (names : ObjectNames) (id : ObjectId) : String :=
  record "ObjectRef" [("id", s!"ObjectId({(names id).1})"), ("type", Text.quote (names id).2)]

mutual

def value (names : ObjectNames) : Value → String
  | .nil => "Nil"
  | .bool b => s!"Bool({bool b})"
  | .int n => s!"Int({n.toInt})"
  | .float x => s!"Float({Text.showFloat x})"
  | .string s => s!"String({Text.quote s})"
  | .list items => "List([" ++ ", ".intercalate (values names items) ++ "])"
  | .object id => s!"Object({object names id})"

def values (names : ObjectNames) : List Value → List String
  | [] => []
  | x :: xs => value names x :: values names xs

end

def tag : TypeTag → String
  | .any => "Any"
  | .nil => "Nil"
  | .boolean => "Boolean"
  | .int => "Int"
  | .float => "Float"
  | .string => "String"
  | .list => "List"
  | .object typeName => s!"Object({Text.quote typeName})"

def kind : ErrorKind → String
  | .user => "User"
  | .runtime => "Runtime"

/-- A link of a chain of causes, with what is behind it already shown. -/
def link (k : ErrorKind) (message : String) (cause : Option String) : String :=
  record "DomainError"
    [("kind", kind k), ("message", Text.quote message), ("cause", option cause)]

def causes : List Cause → Option String
  | [] => none
  | c :: rest => some (link c.kind c.message (causes rest))

def error (e : DomainError) : String := link e.kind e.message (causes e.causes)

def state (names : ObjectNames) : Option Outcome → String
  | none => "Pending"
  | some (.ok v) => s!"Succeeded({value names v})"
  | some (.error e) => s!"Failed({error e})"

/-- A future.  `strand` is the name its strand is shown by. -/
def future (names : ObjectNames) (strand : String) (f : FutureView) : String :=
  record "FutureValue"
    [("id", s!"FutureId({f.strand.id})"), ("strand", Text.quote strand),
      ("return_type", tag f.returnType), ("state", state names f.state)]

/-- A runtime, by what can be read off its scheduler. -/
def runtime (poolSize : Nat) (g : Gauges) : String :=
  let scheduler :=
    record "Scheduler"
      [("pool_size", toString poolSize), ("in_flight", toString g.inFlight),
        ("queued", toString g.queued), ("groups", toString g.groups),
        ("shut_down", bool g.isShutDown)]
  record "Runtime" [("scheduler", scheduler)]

def registry (listeners handlers : Nat) : String :=
  record "RuntimeRegistry"
    [("listeners", toString listeners), ("stop_handlers", toString handlers)]

def param (name : String) (hasDefault : Bool) : String :=
  record "Param" [("name", Text.quote name), ("has_default", bool hasDefault)]

end Strands.Inspect
