/-
What a step with an event does to what is accounted for.

`Balanced` says of one step, by its event alone, what becomes of the stakes, of the
records of futures, of the count of work in flight and of the queue's being closed.
-/
import Mathlib.Tactic.Common
import Strands.Proofs.Move
import Strands.Proofs.Stake

namespace Strands

open Strands.Frame

variable {W : Type}

/-! ## What events do to futures and counters -/

structure Future.Fresh (u : Future W) (id : FutureId) : Prop where
  strand : u.strand.id = id
  state : u.state = none
  claimed : u.claimed = false
  notified : u.notified = false
  kept : u.kept = false
  callback : u.callback.isSome

def Callback.call? : Callback W → Option FutureId
  | argument resolution => resolution.next.call?
  | _ => none

def Futures.Grows (fs fs' : Futures W) (future : FutureId) (call : Option FutureId) : Prop :=
  future = fs.nextId ∧
    ∃ u : Future W, u.Fresh future ∧ (u.callback.bind Callback.call?) = call ∧ fs' = fs ++ [u]

namespace Event

def Writes (fs fs' : Futures W) : Event → Prop
  | created future | opened future _ _ | asked future => fs.Grows fs' future none
  | argument future call => fs.Grows fs' future call
  | handed future => fs' = fs.modify future Future.keep
  | forgot future => fs' = fs.modify future Future.forget
  | requested future => (∃ u, fs.get? future = some u ∧ u.kept = true) ∧ fs' = fs
  | claimed future _ _ =>
    (∃ u, fs.get? future = some u ∧ u.claimed = false) ∧ fs' = fs.modify future Future.claim
  | rejected future _ => (∀ u, fs.get? future = some u → u.claimed = true) ∧ fs' = fs
  | notified future outcome failing =>
    (∃ u callback, fs.get? future = some u ∧ u.state = none ∧ u.callback = callback ∧
        failing = callback.bind (Callback.failing outcome)) ∧
      fs' = fs.modify future (·.complete outcome)
  | ignored future => (∀ u, fs.get? future = some u → u.state.isSome) ∧ fs' = fs
  | announced future => fs' = fs.modify future Future.announce
  | _ => fs' = fs

def flight (n : Nat) : Event → Nat
  | counted _ _ | tracked _ => n + 1
  | left => n - 1
  | _ => n

def closes (isClosed : Bool) : Event → Bool
  | closed _ => true
  | _ => isClosed

def Finds (s : Shared W) : Event → Prop
  | refused _ => s.queue.closed = true
  | idle => s.inFlight = 0
  | _ => True

end Event

/-- What a step with an event does to what is accounted for. -/
structure Balanced (s : Shared W) (top : List (Frame W)) (e : Event) (p : Progress W) : Prop where
  stakes : ∀ w, weigh w (stakesOf p.frames) + weigh w p.shared.stakes + weigh w e.gone =
    weigh w (stakesOf top) + weigh w s.stakes + weigh w e.made
  futures : e.Writes s.futures p.shared.futures
  inFlight : p.shared.inFlight = e.flight s.inFlight
  closed : p.shared.queue.closed = e.closes s.queue.closed
  finds : e.Finds s

theorem Balanced.quiet {s : Shared W} {top : List (Frame W)} {p : Progress W}
    (stakes : ∀ w, weigh w (stakesOf p.frames) = weigh w (stakesOf top))
    (queue : p.shared.queue = s.queue) (groups : p.shared.groups = s.groups)
    (futures : p.shared.futures = s.futures) (inFlight : p.shared.inFlight = s.inFlight) :
    Balanced s top .other p where
  stakes w := by
    simp only [Shared.stakes, queue, groups, futures, stakes w, Event.gone, Event.made]
  futures := futures
  inFlight := inFlight
  closed := by rw [queue]; rfl
  finds := trivial

/-! ## Stakes of what is shared -/

/-- Changing one element of a list changes the weight by that element's. -/
theorem weigh_modify {α β : Type} (w : β → Nat) (held : α → List β) (change : α → α)
    {l : List α} {n : Nat} {a : α} (h : l[n]? = some a) :
    weigh w ((l.modify n change).flatMap held) + weigh w (held a) =
      weigh w (l.flatMap held) + weigh w (held (change a)) := by
  induction l generalizing n with
  | nil => simp at h
  | cons b rest ih =>
    cases n with
    | zero =>
      have same : b = a := by simpa using h
      simp [same]
      omega
    | succ n =>
      have rest : rest[n]? = some a := by simpa using h
      have := ih rest
      simp only [List.modify_succ_cons, List.flatMap_cons, weigh_append]
      omega

namespace Futures

theorem modify_of_get?_none {fs : Futures W} {id : FutureId} {change : Future W → Future W} (h : fs.get? id = none) :
    fs.modify id change = fs := by
  cases id with
  | zero => rfl
  | succ n => exact List.modify_eq_self (List.getElem?_eq_none_iff.1 h)

theorem weigh_modify_of_get? {fs : Futures W} {id : FutureId} (w : Stake → Nat)
    (change : Future W → Future W) {u : Future W} (h : fs.get? id = some u) :
    weigh w ((fs.modify id change).flatMap Future.stakes) + weigh w u.stakes =
      weigh w (fs.flatMap Future.stakes) + weigh w (change u).stakes := by
  cases id with
  | zero => cases h
  | succ n => exact weigh_modify w Future.stakes change h

theorem weigh_modify_of_callback (fs : Futures W) (id : FutureId) (w : Stake → Nat)
    (change : Future W → Future W) (h : ∀ u, (change u).callback = u.callback) :
    weigh w ((fs.modify id change).flatMap Future.stakes) =
      weigh w (fs.flatMap Future.stakes) := by
  cases found : fs.get? id with
  | none => rw [modify_of_get?_none found]
  | some u =>
    have same : (change u).stakes = u.stakes := by rw [Future.stakes, h, Future.stakes]
    have := weigh_modify_of_get? w change found
    rw [same] at this
    omega

end Futures
end Strands
