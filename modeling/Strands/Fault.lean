/-
What can go wrong, and how it is worded.

A `DomainError` is a value: managed code raises it, or the runtime builds it from
a fault of managed code, and it travels through callbacks unchanged.  The other
errors are refusals, returned to whoever asked.
-/
import Strands.Value

namespace Strands

/-- A future's number; its strand has the same one. -/
abbrev FutureId := Nat

/-- Where a domain error came from. -/
inductive ErrorKind where
  /-- Raised by managed code. -/
  | user
  /-- Built by the runtime around a fault. -/
  | runtime
  deriving DecidableEq, Inhabited

def ErrorKind.display : ErrorKind → String
  | user => "error"
  | runtime => "runtime error"

/-- One link of a chain of causes. -/
structure Cause where
  kind : ErrorKind
  message : String
  deriving DecidableEq, Inhabited

/-- An error together with the chain of its causes, nearest first. -/
structure DomainError where
  kind : ErrorKind
  message : String
  causes : List Cause := []
  deriving DecidableEq, Inhabited

/-- What managed code throws when it does not return. -/
inductive Panic where
  | text (message : String)
  | other
  deriving DecidableEq, Inhabited

def Panic.message : Panic → String
  | text message => message
  | other => "unknown panic"

namespace DomainError

def user (message : String) : DomainError := { kind := .user, message }

/-- An error the runtime builds.  Of what it wraps only the text is kept. -/
def runtime (message : String) : DomainError := { kind := .runtime, message }

def ofPanic (panic : Panic) : DomainError := runtime panic.message

/-- The error caused by another one, in place of any cause it had. -/
def withCause (e cause : DomainError) : DomainError :=
  { e with causes := ⟨cause.kind, cause.message⟩ :: cause.causes }

/-- The nearest cause, as an error with the causes behind it. -/
def cause? (e : DomainError) : Option DomainError :=
  match e.causes with
  | [] => none
  | c :: rest => some { kind := c.kind, message := c.message, causes := rest }

def isRuntime (e : DomainError) : Bool := e.kind = .runtime

def sources (e : DomainError) : List String := e.causes.map Cause.message

end DomainError

/-- How a unit of work ends. -/
abbrev Outcome := Except DomainError Value

/-- An invocation that names no receiver or no method. -/
inductive ValidationError where
  | nullObject
  | nullMethodName
  deriving DecidableEq, Inhabited

def ValidationError.message : ValidationError → String
  | nullObject => "object cannot be null"
  | nullMethodName => "method name cannot be null"

/-- Misuse of a future, which is written once. -/
inductive FutureError where
  | alreadyCompleted (future : FutureId)
  deriving DecidableEq, Inhabited

def futureName (future : FutureId) : String := s!"#{future}"

def FutureError.message : FutureError → String
  | alreadyCompleted future => s!"future {futureName future} is already completed"

/-- A unit of work that was not placed. -/
inductive ScheduleError where
  | shutDown
  | alreadyScheduled (future : FutureId)
  deriving DecidableEq, Inhabited

def ScheduleError.message : ScheduleError → String
  | shutDown => "scheduler is shut down"
  | alreadyScheduled future => s!"future {futureName future} was already scheduled"

/-- Settings that cannot be used. -/
inductive SettingsError where
  | invalidPoolSize (text : String)
  deriving DecidableEq, Inhabited

def SettingsError.message : SettingsError → String
  | invalidPoolSize text =>
    s!"invalid worker pool size `{text}`: expected a positive integer"

/-- What a future holds after its work was refused. -/
def refusal : Outcome := .error (.runtime ScheduleError.shutDown.message)

end Strands
