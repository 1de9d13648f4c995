/-
Settings of a scheduler, and reading its pool size from the environment.
-/
import Strands.Fault
import Strands.Text.Numeral

namespace Strands

/-- How a scheduler is set up. -/
structure Settings where
  poolSize : Nat
  workerName : String
  /-- How long an idle worker rests before it looks again, in microseconds. -/
  idleRest : Nat
  deriving DecidableEq, Inhabited

namespace Settings

def poolSizeKey : String := "SKEIN_MAX_POOL_SIZE"

/-- The settings used where nothing else is said: one worker for each unit of
parallelism the machine offers, or four if it does not tell. -/
def default (parallelism : Option Nat) : Settings where
  poolSize := parallelism.getD 4
  workerName := "skein-worker"
  idleRest := 5000

def readPoolSize (text : String) : Except SettingsError Nat :=
  match Text.count? text with
  | some n => .ok n
  | none => .error (.invalidPoolSize text)

/-- The default settings, with the pool size that `lookup` knows of, if any. -/
def fromLookup {m : Type → Type} [Monad m] (parallelism : Option Nat)
    (lookup : String → m (Option String)) : m (Except SettingsError Settings) := do
  match ← lookup poolSizeKey with
  | none => return .ok (default parallelism)
  | some text =>
    return (readPoolSize text).map fun n => { default parallelism with poolSize := n }

/-- The same over known variables, together with the keys that were asked for. -/
def fromVariables (parallelism : Option Nat) (known : List (String × String)) :
    Except SettingsError Settings × List String :=
  let lookup (key : String) : StateM (List String) (Option String) := do
    modify (· ++ [key])
    return known.lookup key
  (fromLookup parallelism lookup).run []

/-- At least one worker is always asked for. -/
def withPoolSize (s : Settings) (n : Nat) : Settings := { s with poolSize := max n 1 }

def withWorkerName (s : Settings) (name : String) : Settings := { s with workerName := name }

def withIdleRest (s : Settings) (microseconds : Nat) : Settings :=
  { s with idleRest := microseconds }

/-- A change to settings. -/
inductive Change where
  | poolSize (n : Nat)
  | workerName (name : String)
  | idleRest (microseconds : Nat)

def change (s : Settings) : Change → Settings
  | .poolSize n => s.withPoolSize n
  | .workerName name => s.withWorkerName name
  | .idleRest microseconds => s.withIdleRest microseconds

/-- The settings before any change and after each of them. -/
def history (s : Settings) : List Change → List Settings
  | [] => [s]
  | c :: cs => s :: (s.change c).history cs

/-- How many workers a scheduler with these settings starts. -/
def workers (s : Settings) : Nat := max s.poolSize 1

end Settings
end Strands
