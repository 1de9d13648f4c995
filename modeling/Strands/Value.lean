/-
Values passed between strands, and the tags that name their types.

An object is a value by identity only: what it does is its owner's business, and
two objects are equal when they are one object.  Equality of values, `same`, is
IEEE equality at the floats and structural elsewhere, so a value is the same as
itself exactly when no NaN occurs in it.
-/
import Strands.Binary64

namespace Strands

/-- An object's identity, given out once and never reused. -/
abbrev ObjectId := Nat

/-- A value of the managed language. -/
inductive Value where
  | nil
  | bool (value : Bool)
  | int (value : Int64)
  | float (bits : Binary64)
  | string (text : String)
  | list (items : List Value)
  | object (id : ObjectId)
  deriving Inhabited

/-- The type a value has or a future promises. -/
inductive TypeTag where
  | any
  | nil
  | boolean
  | int
  | float
  | string
  | list
  | object (typeName : String)
  deriving DecidableEq, Inhabited

def TypeTag.display : TypeTag → String
  | any => "any"
  | nil => "()"
  | boolean => "boolean"
  | int => "int"
  | float => "float"
  | string => "string"
  | list => "list"
  | object typeName => typeName

def TypeTag.isObject : TypeTag → Bool
  | object _ => true
  | _ => false

namespace Value

def int? : Value → Option Int64
  | int n => some n
  | _ => none

def string? : Value → Option String
  | string s => some s
  | _ => none

/-- The tag of a value.  An object is asked for the name of its type. -/
def tag (typeName : ObjectId → String) : Value → TypeTag
  | nil => .nil
  | bool _ => .boolean
  | int _ => .int
  | float _ => .float
  | string _ => .string
  | list _ => .list
  | object id => .object (typeName id)

mutual

def same : Value → Value → Bool
  | nil, nil => true
  | bool a, bool b => a == b
  | int a, int b => a == b
  | float a, float b => a.same b
  | string a, string b => a == b
  | list xs, list ys => sameAll xs ys
  | object a, object b => a == b
  | _, _ => false

def sameAll : List Value → List Value → Bool
  | [], [] => true
  | x :: xs, y :: ys => same x y && sameAll xs ys
  | _, _ => false

end

mutual

def objects : Value → List ObjectId
  | object id => [id]
  | list items => objectsOf items
  | _ => []

def objectsOf : List Value → List ObjectId
  | [] => []
  | x :: xs => objects x ++ objectsOf xs

end

end Value
end Strands
