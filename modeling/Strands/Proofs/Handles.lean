/-
Handles of the scheduler, and dropping the last of them.

The handles are those that clients keep, those that are about to be dropped, and one
for every call that waits for its arguments and for every argument being computed:
`Trace.handle_law`.  While clients keep one and nobody has asked for a shutdown none
begins: `Trace.unstopped_of_owned`.
-/
import Strands.Proofs.Finished

namespace Strands

variable {W : Type}

namespace Stake

def grips : Stake → Nat
  | handle | call _ => 1
  | _ => 0

end Stake

namespace Event

def grabs : Event → Nat
  | handleTaken => 1
  | _ => 0

def yields : Event → Nat
  | relinquished => 1
  | _ => 0

def isShutdownAsked : Event → Bool
  | shutdownAsked => true
  | _ => false

theorem isShutdownAsked_iff (e : Event) : e.isShutdownAsked = true ↔ e = .shutdownAsked := by
  cases e <;> simp [isShutdownAsked]

end Event

instance (history : List Event) : Decidable (.shutdownAsked ∈ history) :=
  decidable_of_iff _ (any_iff_mem Event.isShutdownAsked_iff)

/-- Clients have kept a handle all the time, the first one or another. -/
def Owned (history : List Event) : Prop :=
  ∀ a b, history = a ++ b → tally Event.yields a ≤ tally Event.grabs a

/-- Clients that give up no handle keep one. -/
theorem owned_of_unyielded {history : List Event} (none : tally Event.yields history = 0) :
    Owned history := fun a b eq => by
  rw [eq, tally_append] at none
  omega

theorem Owned.ofPrefix {a b : List Event} (h : Owned (a ++ b)) : Owned a :=
  fun c d eq => h c (d ++ b) (by rw [eq, List.append_assoc])

namespace State

variable {client : Client W} {workers : Nat} {world : W} {kept : List ObjectId}
  {threads : List (Code W)} {s : State W} {history : List Event}

namespace Trace

/-- The handles are those of clients and those held for calls and arguments. -/
theorem handle_law (trace : Trace client (State.start workers world kept threads) history s)
    (owned : Owned history) :
    s.shared.handles + tally Event.yields history =
      1 + tally Event.grabs history + weigh Stake.grips s.stakes := by
  refine trace.keeps (fun history s => Owned history →
    s.shared.handles + tally Event.yields history =
      1 + tally Event.grabs history + weigh Stake.grips s.stakes) (fun _ => ?_) ?_ owned
  · rw [stakes_start]
    rfl
  · intro before e moment ih owned
    have law := ih owned.ofPrefix
    have kept := owned before [e] rfl
    have balance := moment.accounts.stakes Stake.grips
    have grips := step_grips moment.taken
    rw [moment.event] at grips
    simp only [tally_append, tally_cons, tally_nil]
    cases e with
    | opened g fault behalf =>
      have same : moment.s'.shared.handles = moment.s.shared.handles := grips
      cases fault <;> simp [Stake.grips, Event.yields, Event.grabs] at balance ⊢ <;> omega
    | appended r group g took =>
      have same : moment.s'.shared.handles = moment.s.shared.handles := grips
      cases took <;> simp [Stake.grips, Event.yields, Event.grabs] at balance ⊢ <;> omega
    | notified g outcome failing =>
      have same : moment.s'.shared.handles = moment.s.shared.handles := grips
      cases failing <;> simp [Stake.grips, Event.yields, Event.grabs] at balance ⊢ <;> omega
    | handleTaken | tracked g | argument g call | resolving =>
      have more : moment.s'.shared.handles = moment.s.shared.handles + 1 := grips
      simp [Stake.grips, Event.yields, Event.grabs] at balance ⊢
      omega
    | handleDropped last =>
      have less : moment.s'.shared.handles = moment.s.shared.handles - 1 := grips.1
      simp [Stake.grips, Event.yields, Event.grabs] at balance ⊢
      omega
    | _ =>
      have same : moment.s'.shared.handles = moment.s.shared.handles := grips
      simp [Stake.grips, Event.yields, Event.grabs] at balance ⊢
      omega

theorem not_last_of_owned
    (trace : Trace client (State.start workers world kept threads) history s)
    (owned : Owned history) : .handleDropped true ∉ history := fun mem => by
  obtain ⟨before, after, rfl⟩ := List.append_of_mem mem
  obtain ⟨moment⟩ := trace.split
  have law := moment.trace.handle_law owned.ofPrefix
  have kept := owned before _ rfl
  have balance := moment.accounts.stakes Stake.grips
  have grips := step_grips moment.taken
  rw [moment.event] at grips
  have last : moment.s.shared.handles = 1 := grips.2.1 rfl
  simp only [Event.gone, Event.made, weigh_cons, weigh_nil, Stake.grips] at balance
  omega

/-- A shutdown begins because somebody asked for it or dropped the last handle. -/
theorem cause_of_shutdown
    (trace : Trace client (State.start workers world kept threads) history s) {worker : Bool}
    (began : .shutdown worker ∈ history) :
    .shutdownAsked ∈ history ∨ .handleDropped true ∈ history := by
  obtain ⟨before, after, rfl⟩ := List.append_of_mem began
  obtain ⟨moment, frame, place, cause⟩ := trace.sound
  exact cause.imp (List.mem_append_left _) (List.mem_append_left _)

theorem unstopped_of_owned
    (trace : Trace client (State.start workers world kept threads) history s)
    (owned : Owned history) (unasked : .shutdownAsked ∉ history) : Unstopped history :=
  fun _ began => (trace.cause_of_shutdown began).elim unasked (trace.not_last_of_owned owned)

end Trace
end State
end Strands
