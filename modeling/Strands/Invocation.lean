/-
One method call before it is dispatched.

Receiver and method may be missing, so that an incomplete call can be described;
`validate` says what is missing, the receiver first.
-/
import Strands.Holding

namespace Strands

/-- The lane a unit of work runs on. -/
inductive Lane where
  /-- Any worker, in no order. -/
  | free
  /-- One unit at a time for each receiver, in the order of submission. -/
  | group
  deriving DecidableEq, Inhabited

def Lane.display : Lane → String
  | free => "free"
  | group => "group"

/-- Where a unit of work is to be placed. -/
inductive Placement where
  | free
  | group (receiver : ObjectId)
  deriving DecidableEq, Inhabited

def Lane.placement (lane : Lane) (receiver : ObjectId) : Placement :=
  match lane with
  | free => .free
  | group => .group receiver

/-- How an invocation picks its lane. -/
inductive Mode where
  | sequential
  /-- The free lane, on the caller's word that this is safe. -/
  | concurrent
  /-- The free lane if the receiver's type and the method are both isolated, and
  the group lane otherwise. -/
  | byIsolation
  deriving DecidableEq, Inhabited

/-- What a future is made with, its callback aside. -/
structure FutureSpec where
  strandName : Option String := none
  metadata : Metadata := {}
  properties : Properties := {}
  returnType : TypeTag := .any
  parent : Option StrandId := none
  deriving Inhabited

/-- The strand of the future with the given number. -/
def FutureSpec.strand (spec : FutureSpec) (id : FutureId) : Strand where
  id := id
  name := spec.strandName
  metadata := spec.metadata
  properties := spec.properties
  parent := spec.parent

/-- A method call. -/
structure Invocation where
  receiver : Option ObjectId := none
  method : Option String := none
  args : List Value := []
  strandName : Option String := none
  /-- The receiver's type name and the method, unless given. -/
  metadata : Option Metadata := none
  properties : Option Properties := none
  returnType : TypeTag := .any
  parent : Option Strand := none
  deriving Inhabited

/-- The receiver and the method, both of which a call needs. -/
def Invocation.validate (inv : Invocation) : Except ValidationError (ObjectId × String) :=
  match inv.receiver with
  | none => .error .nullObject
  | some receiver =>
    match inv.method with
    | none => .error .nullMethodName
    | some method => .ok (receiver, method)

/-- What the future of an invocation is made with, once its call site is known. -/
def Invocation.spec (inv : Invocation) (metadata : Metadata) : FutureSpec where
  strandName := inv.strandName
  metadata := metadata
  properties := inv.properties.getD {}
  returnType := inv.returnType
  parent := inv.parent.map Strand.id

def Invocation.held (inv : Invocation) : Holding :=
  { objects := inv.receiver.toList } ++ .ofValues inv.args ++
    (inv.properties.map Properties.held).getD {} ++ .ofParent inv.parent

end Strands
