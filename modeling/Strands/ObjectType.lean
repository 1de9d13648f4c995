/-
Types of objects as far as calling a method needs them, and the arity check.

A type knows which of its methods exist, whether it and they are isolated, and
which parameters may be left out.  `omitted` compares a number of given arguments
with a signature: it finds the parameters to be filled in, or says what is wrong
with the call.  A method the type does not know takes whatever it is given; its
object decides what to do.
-/
import Strands.Code

namespace Strands

variable {W : Type}

/-- An expression for an omitted argument.  It sees the strand it runs on and
the arguments before its own. -/
abbrev Expression (W : Type) := Strand → List Value → Code W

/-- A declared parameter. -/
structure Param (W : Type) where
  name : String
  default : Option (Expression W) := none

/-- A method's signature. -/
structure Method (W : Type) where
  name : String
  isolated : Bool := false
  params : List (Param W) := []
  /-- Whether arguments past the parameters are accepted. -/
  rest : Bool := false

/-- An object's type. -/
structure ObjectType (W : Type) where
  name : String
  isolated : Bool := false
  methods : OrderedMap (Method W) := {}

/-- A parameter that is left out, with what its argument is computed by. -/
structure Omitted (W : Type) where
  param : String
  expression : Expression W

/-- Whether a call may skip its receiver's group lane. -/
structure Isolation where
  typeIsolated : Bool
  methodIsolated : Bool
  deriving DecidableEq, Inhabited

namespace Isolation

def isIsolated (i : Isolation) : Bool := i.typeIsolated && i.methodIsolated

def lane (i : Isolation) : Lane := if i.isIsolated then .free else .group

end Isolation

namespace ObjectType

/-- The type with one more method, in place of one of the same name. -/
def method (t : ObjectType W) (m : Method W) : ObjectType W :=
  { t with methods := t.methods.insert m.name m }

def method? (t : ObjectType W) (name : String) : Option (Method W) := t.methods.get? name

/-- An unknown method is never isolated. -/
def isMethodIsolated (t : ObjectType W) (name : String) : Bool :=
  match t.method? name with
  | some m => m.isolated
  | none => false

def isolation (t : ObjectType W) (name : String) : Isolation :=
  ⟨t.isolated, t.isMethodIsolated name⟩

/-- The lane a call takes if the mode leaves the choice to the type. -/
def lane (t : ObjectType W) (name : String) : Lane := (t.isolation name).lane

/-- How a method of the type is named in messages. -/
def methodName (t : ObjectType W) (name : String) : String := s!"{t.name}.{name}"

/-- The call gives more arguments than there are parameters. -/
def tooMany (t : ObjectType W) (name : String) (params given : Nat) : DomainError :=
  .user <|
    s!"too many arguments in call to '{t.methodName name}': " ++
      s!"expected at most {params}, found {given}"

/-- The call leaves out an argument that it has to give. -/
def missing (t : ObjectType W) (name param : String) : DomainError :=
  .user s!"missing required argument '{param}' in call to '{t.methodName name}'"

/-- The given parameters as parameters to be filled in, if all of them can be. -/
def fill (t : ObjectType W) (name : String) :
    List (Param W) → Except DomainError (List (Omitted W))
  | [] => .ok []
  | p :: rest =>
    match p.default with
    | none => .error (t.missing name p.name)
    | some expression =>
      match t.fill name rest with
      | .ok pending => .ok (⟨p.name, expression⟩ :: pending)
      | .error e => .error e

/-- The parameters a call leaves out when it gives so many arguments. -/
def omitted (t : ObjectType W) (name : String) (given : Nat) :
    Except DomainError (List (Omitted W)) :=
  match t.method? name with
  | none => .ok []
  | some m =>
    if m.params.length < given ∧ m.rest = false then
      .error (t.tooMany name m.params.length given)
    else
      t.fill name (m.params.drop given)

end ObjectType

/-- What a client brings: how its objects answer when asked for their type, and
what their methods do.

Asking an object runs `consult`, which sees how many times the object was asked
before and may panic.  If it returns, the answer is `typeOf` in the world it
leaves. -/
structure Client (W : Type) where
  consult : ObjectId → Nat → Code W
  typeOf : ObjectId → W → ObjectType W
  call : ObjectId → Strand → String → List Value → Code W

end Strands
