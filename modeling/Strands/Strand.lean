/-
Strands: named contexts of execution.

A strand is made together with its future and never changes.  It carries a name,
the call site it stands for, properties, and the number of the strand it was
made from.
-/
import Strands.Fault
import Strands.OrderedMap

namespace Strands

/-- A strand's number; detached strands have number zero. -/
abbrev StrandId := Nat

/-- Settings a strand carries for its call, in the order they were given. -/
abbrev Properties := OrderedMap Value

/-- The call site a strand stands for.  Tags are ordered by key. -/
structure Metadata where
  moduleOrg : Option String := none
  moduleName : Option String := none
  moduleVersion : Option String := none
  typeName : Option String := none
  parentFunction : Option String := none
  tags : List (String × String) := []
  deriving DecidableEq, Inhabited

namespace Metadata

def ofMethod (typeName method : String) : Metadata :=
  { typeName := some typeName, parentFunction := some method }

/-- Put a tag in its place by key, over an earlier one of that key. -/
def insertTag (key value : String) : List (String × String) → List (String × String)
  | [] => [(key, value)]
  | (k, v) :: rest =>
    if key < k then (key, value) :: (k, v) :: rest
    else if k = key then (key, value) :: rest
    else (k, v) :: insertTag key value rest

def tag (m : Metadata) (key value : String) : Metadata :=
  { m with tags := insertTag key value m.tags }

end Metadata

/-- A context of execution. -/
structure Strand where
  id : StrandId
  name : Option String := none
  metadata : Metadata := {}
  properties : Properties := {}
  parent : Option StrandId := none
  deriving Inhabited

namespace Strand

/-- A strand of no scheduler, for work run directly on its caller's thread. -/
def detached (name : String) : Strand := { id := 0, name := some name }

/-- The explicit name, else `Type.function`, else the function, else the number. -/
def displayName (s : Strand) : String :=
  match s.name, s.metadata.typeName, s.metadata.parentFunction with
  | some name, _, _ => name
  | none, some typeName, some function => s!"{typeName}.{function}"
  | none, none, some function => function
  | none, _, none => s!"strand-{s.id}"

end Strand
end Strands
