/-
The laws of a future's life.

Each law equates what is held for a future in a state with what the history says of
it, by `Trace.law`.  Following a unit: what was claimed is bound or was counted, what
was counted is on its way or was queued or refused, what was queued waits or ran or
was refused, and what ran is running or has ended.  Following the future itself: it
waits to be completed as often as something was begun for it, but for the times it
was.  And the count of work in flight is the number of shares held.
-/
import Strands.Proofs.History

namespace Strands

variable {W : Type}

/-! ## What is held for a future -/

namespace Stake

def share : Stake → Nat
  | hand _ | job _ | unit _ | guard | call _ => 1
  | _ => 0

def chain (future : FutureId) : Stake → Nat
  | opening g | call g | attempt g false => one future g
  | _ => 0

/-- What is held for a future from its being bound to its completion. -/
def work (future : FutureId) : Stake → Nat
  | bound g _ | hand g | job g | unit g | settle g => one future g
  | _ => 0

def attempts (future : FutureId) : Stake → Nat
  | attempt g true => one future g
  | _ => 0

def waits (future : FutureId) : Stake → Nat
  | opening g | call g => one future g
  | _ => 0

def binds (future : FutureId) : Stake → Nat
  | bound g _ => one future g
  | _ => 0

def hands (future : FutureId) : Stake → Nat
  | hand g => one future g
  | _ => 0

def queues (future : FutureId) : Stake → Nat
  | job g => one future g
  | _ => 0

def runs (future : FutureId) : Stake → Nat
  | unit g => one future g
  | _ => 0

def announces (future : FutureId) : Stake → Nat
  | announce g => one future g
  | _ => 0

def replies (future : FutureId) : Stake → Nat
  | reply g => one future g
  | _ => 0

end Stake

/-! ## What a history says of a future -/

namespace Event

def opens (future : FutureId) : Event → Nat
  | opened g _ _ => one future g
  | _ => 0

def serves (future : FutureId) : Event → Nat
  | created g | opened g _ _ => one future g
  | _ => 0

def spares (future : FutureId) : Event → Nat
  | argument g _ | asked g => one future g
  | _ => 0

def begins (future : FutureId) : Event → Nat
  | opened g _ _ | argument g _ | asked g => one future g
  | _ => 0

def births (future : FutureId) : Event → Nat
  | created g | opened g _ _ | argument g _ | asked g => one future g
  | _ => 0

def faults (future : FutureId) : Event → Nat
  | opened g (some _) _ => one future g
  | _ => 0

def claims (future : FutureId) : Event → Nat
  | claimed g _ _ => one future g
  | _ => 0

def takes (future : FutureId) : Event → Nat
  | claimed g true _ => one future g
  | _ => 0

def requests (future : FutureId) : Event → Nat
  | requested g => one future g
  | _ => 0

def rebuffs (future : FutureId) : Event → Nat
  | rejected g true => one future g
  | _ => 0

def rejects (future : FutureId) : Event → Nat
  | rejected g false => one future g
  | _ => 0

def fails (future : FutureId) : Event → Nat
  | faulted g _ | failed g _ | notified _ _ (some g) => one future g
  | _ => 0

def places (future : FutureId) : Event → Nat
  | placed g => one future g
  | _ => 0

def counts (future : FutureId) : Event → Nat
  | counted g _ => one future g
  | _ => 0

def queues (future : FutureId) : Event → Nat
  | queued g | appended _ _ g _ => one future g
  | _ => 0

def refuses (future : FutureId) : Event → Nat
  | refused g | stranded g => one future g
  | _ => 0

/-- The job is refused after it was on the queue or on a lane. -/
def clears (future : FutureId) : Event → Nat
  | drained _ futures | closed futures => futures.count future
  | _ => 0

def runs (future : FutureId) : Event → Nat
  | started g | turned _ _ g => one future g
  | _ => 0

def ends (future : FutureId) : Event → Nat
  | ended g _ => one future g
  | _ => 0

def notifies (future : FutureId) : Event → Nat
  | notified g _ _ => one future g
  | _ => 0

def ignores (future : FutureId) : Event → Nat
  | ignored g => one future g
  | _ => 0

def announces (future : FutureId) : Event → Nat
  | announced g => one future g
  | _ => 0

def hands (future : FutureId) : Event → Nat
  | handed g => one future g
  | _ => 0

end Event

/-! ## The laws -/

namespace State

variable {client : Client W} {workers : Nat} {world : W} {kept : List ObjectId}
  {threads : List (Code W)} {s : State W} {history : List Event}

attribute [local simp] Stake.share Stake.chain Stake.work Stake.attempts Stake.waits Stake.binds
  Stake.hands Stake.queues Stake.runs Stake.announces Stake.replies

attribute [local simp] Event.opens Event.serves Event.begins Event.faults Event.claims Event.takes
  Event.requests Event.rebuffs Event.rejects Event.fails Event.places Event.counts Event.queues
  Event.refuses Event.clears Event.runs Event.ends Event.notifies Event.ignores Event.announces
  Event.hands

namespace Trace

/-- A future that was claimed is bound, or its unit was counted. -/
theorem bound_law (trace : Trace client (State.start workers world kept threads) history s)
    (f : FutureId) :
    weigh (Stake.binds f) s.stakes + tally (Event.counts f) history =
      tally (Event.claims f) history := by
  refine trace.law _ _ _ fun e => ?_
  cases e with
  | opened g fault context => cases fault <;> simp
  | appended r group g took => cases took <;> simp
  | notified g outcome failing => cases failing <;> simp
  | _ => simp

/-- A unit that was counted is on its way, or was put on the queue or a lane, or was
refused before. -/
theorem hand_law (trace : Trace client (State.start workers world kept threads) history s)
    (f : FutureId) :
    weigh (Stake.hands f) s.stakes +
        tally (fun e => e.queues f + e.refuses f) history =
      tally (Event.counts f) history := by
  refine trace.law _ _ _ fun e => ?_
  cases e with
  | opened g fault context => cases fault <;> simp
  | appended r group g took => cases took <;> simp
  | notified g outcome failing => cases failing <;> simp
  | _ => simp

/-- A job that was put on the queue or a lane waits there, or began to run, or was
refused. -/
theorem job_law (trace : Trace client (State.start workers world kept threads) history s)
    (f : FutureId) :
    weigh (Stake.queues f) s.stakes +
        tally (fun e => e.runs f + e.clears f) history =
      tally (Event.queues f) history := by
  refine trace.law _ _ _ fun e => ?_
  cases e with
  | opened g fault context => cases fault <;> simp
  | appended r group g took => cases took <;> simp
  | notified g outcome failing => cases failing <;> simp
  | _ => simp

/-- A unit that began to run runs or has ended. -/
theorem unit_law (trace : Trace client (State.start workers world kept threads) history s)
    (f : FutureId) :
    weigh (Stake.runs f) s.stakes + tally (Event.ends f) history =
      tally (Event.runs f) history := by
  refine trace.law _ _ _ fun e => ?_
  cases e with
  | opened g fault context => cases fault <;> simp
  | appended r group g took => cases took <;> simp
  | notified g outcome failing => cases failing <;> simp
  | _ => simp

/-- A callback that was notified runs or has returned. -/
theorem announce_law (trace : Trace client (State.start workers world kept threads) history s)
    (f : FutureId) :
    weigh (Stake.announces f) s.stakes + tally (Event.announces f) history =
      tally (Event.notifies f) history := by
  refine trace.law _ _ _ fun e => ?_
  cases e with
  | opened g fault context => cases fault <;> simp
  | appended r group g took => cases took <;> simp
  | notified g outcome failing => cases failing <;> simp
  | _ => simp

/-- A future that was made for a client is about to be handed over, or was. -/
theorem reply_law (trace : Trace client (State.start workers world kept threads) history s)
    (f : FutureId) :
    weigh (Stake.replies f) s.stakes + tally (Event.hands f) history =
      tally (Event.serves f) history := by
  refine trace.law _ _ _ fun e => ?_
  cases e with
  | opened g fault context => cases fault <;> simp
  | appended r group g took => cases took <;> simp
  | notified g outcome failing => cases failing <;> simp
  | _ => simp

theorem request_law (trace : Trace client (State.start workers world kept threads) history s)
    (f : FutureId) :
    weigh (Stake.attempts f) s.stakes + tally (fun e => e.takes f + e.rebuffs f) history =
      tally (Event.requests f) history := by
  refine trace.law _ _ _ fun e => ?_
  cases e with
  | opened g fault context => cases fault <;> simp
  | claimed g byClient context | rejected g byClient =>
    cases byClient <;> simp
  | appended r group g took => cases took <;> simp
  | notified g outcome failing => cases failing <;> simp
  | _ => simp

/-- A call waits for its arguments until it fails or is placed. -/
theorem call_law (trace : Trace client (State.start workers world kept threads) history s)
    (f : FutureId) :
    weigh (Stake.waits f) s.stakes +
        tally (fun e => e.fails f + e.places f + e.faults f) history =
      tally (Event.opens f) history := by
  refine trace.law _ _ _ fun e => ?_
  cases e with
  | opened g fault context => cases fault <;> simp
  | appended r group g took => cases took <;> simp
  | notified g outcome failing => cases failing <;> simp
  | _ => simp

/-- A future that was bound to a unit, or whose call failed, is being worked on until
it is completed. -/
theorem work_law (trace : Trace client (State.start workers world kept threads) history s)
    (f : FutureId) :
    weigh (Stake.work f) s.stakes + tally (fun e => e.notifies f + e.ignores f) history =
      tally (fun e => e.claims f + e.fails f + e.faults f) history := by
  refine trace.law _ _ _ fun e => ?_
  cases e with
  | opened g fault context => cases fault <;> simp
  | appended r group g took => cases took <;> simp
  | notified g outcome failing => cases failing <;> simp; omega
  | _ => simp

/-- A future is on its way to being completed as often as the scheduler began to
complete it and clients bound it to units, less the times it was completed. -/
theorem course_law (trace : Trace client (State.start workers world kept threads) history s)
    (f : FutureId) :
    weigh (fun stake => stake.chain f + stake.work f) s.stakes +
        tally (fun e => e.notifies f + e.ignores f + e.rejects f) history =
      tally (fun e => e.takes f + e.begins f) history := by
  refine trace.law _ _ _ fun e => ?_
  cases e with
  | opened g fault context => cases fault <;> simp
  | claimed g byClient context | rejected g byClient => cases byClient <;> simp
  | appended r group g took => cases took <;> simp
  | notified g outcome failing => cases failing <;> simp; omega
  | _ => simp

end Trace

/-- The count of work in flight is the number of shares held. -/
theorem Trace.share_law
    (trace : Trace client (State.start workers world kept threads) history s) :
    weigh Stake.share s.stakes = s.shared.inFlight := by
  refine trace.keeps (fun _ s => weigh Stake.share s.stakes = s.shared.inFlight) ?_ ?_
  · rw [stakes_start]
    rfl
  · intro before e moment ih
    have balance := moment.accounts.stakes Stake.share
    rw [moment.accounts.inFlight]
    cases e with
    | opened g fault context => cases fault <;> simp [Event.flight] at balance ⊢ <;> omega
    | appended r group g took => cases took <;> simp [Event.flight] at balance ⊢ <;> omega
    | notified g outcome failing =>
      cases failing <;> simp [Event.flight] at balance ⊢ <;> omega
    | _ =>
      simp [Event.flight] at balance ⊢
      omega

end State
end Strands
