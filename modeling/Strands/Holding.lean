/-
What is held on to.

Objects and futures last for as long as something holds on to them: a client, a job
that waits, a thread in the midst of its work.  A `Holding` is what one holder
keeps; what a whole state keeps is the union over its holders.
-/
import Strands.Strand

namespace Strands

/-- The objects and futures that one holder keeps. -/
structure Holding where
  objects : List ObjectId := []
  futures : List FutureId := []
  deriving Inhabited

namespace Holding

instance : Append Holding where
  append a b := ⟨a.objects ++ b.objects, a.futures ++ b.futures⟩

/-- Whoever mentions an object holds on to it. -/
def ofObject (object : ObjectId) : Holding := { objects := [object] }

/-- Whoever mentions a future holds on to it. -/
def ofFuture (future : FutureId) : Holding := { futures := [future] }

def ofValues (values : List Value) : Holding := { objects := Value.objectsOf values }

theorem objects_append (a b : Holding) : (a ++ b).objects = a.objects ++ b.objects := rfl

end Holding

/-- An outcome holds on to the objects in its value. -/
def Outcome.held : Outcome → Holding
  | .ok value => { objects := value.objects }
  | .error _ => {}

def Properties.held (properties : Properties) : Holding := .ofValues properties.values

def Strand.held (strand : Strand) : Holding := strand.properties.held

/-- What is made from a strand holds on to that strand. -/
def Holding.ofParent (parent : Option Strand) : Holding := (parent.map Strand.held).getD {}

end Strands
