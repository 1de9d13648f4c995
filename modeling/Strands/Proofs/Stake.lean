/-
Stakes: what frames, entries of the queue, lanes and callbacks hold for a future, a
group or the scheduler.

`Frame.stakes` and its companions list the stakes of one holder and `State.stakes`
those of a whole state.  Each event takes some stakes away and brings others in,
`Event.gone` and `Event.made`.  Counts of stakes are weighed rather than compared as
lists: `weigh w` adds up a weight for each stake, and an equation between weighings
for all `w` is an equation between lists up to order.
-/
import Mathlib.Algebra.GroupWithZero.Nat
import Mathlib.Data.List.Basic
import Strands.Proofs.Event

namespace Strands

variable {W : Type}

/-- One thing held for a future, a group or the scheduler. -/
inductive Stake where
  /-- A unit is about to be bound to the future. -/
  | attempt (future : FutureId) (byClient : Bool)
  /-- A unit is bound to the future and not counted yet. -/
  | bound (future : FutureId) (byClient : Bool)
  /-- The future's job is on its way to the queue or a lane. -/
  | hand (future : FutureId)
  /-- The future's job waits on the queue or on a lane. -/
  | job (future : FutureId)
  | unit (future : FutureId)
  /-- A share of the count of work in flight, without a job or a call. -/
  | guard
  | settle (future : FutureId)
  | announce (future : FutureId)
  | token (group : GroupId)
  /-- A call that has its future and is not counted yet. -/
  | opening (future : FutureId)
  /-- A call that waits for its arguments, with a share of the count of work in flight
  and a handle of the scheduler. -/
  | call (future : FutureId)
  | handle
  /-- The future is about to be handed to a client. -/
  | reply (future : FutureId)
  deriving DecidableEq

/-- The sum of a weight for each element of a list. -/
def weigh {α : Type} (w : α → Nat) (held : List α) : Nat := (held.map w).sum

section Weighing

variable {α : Type} (w : α → Nat)

@[simp] theorem weigh_nil : weigh w [] = 0 := rfl

@[simp] theorem weigh_cons (a : α) (held : List α) :
    weigh w (a :: held) = w a + weigh w held := by
  simp [weigh]

@[simp] theorem weigh_append (a b : List α) : weigh w (a ++ b) = weigh w a + weigh w b := by
  simp [weigh]

end Weighing

/-! ## Who holds what -/

def Next.stakes (next : Next W) : List Stake := (next.call?.map Stake.call).toList

namespace Site

/-- What is held while an object is asked for its type. -/
@[simp] def stakes : Site W → List Stake
  | lane call => [.opening call.future]
  | omitted lookup => lookup.next.stakes
  | expressions lookup _ => lookup.next.stakes
  | _ => []

end Site

@[simp] def Resolution.stakes (r : Resolution W) : List Stake := .handle :: r.next.stakes

@[simp] def Callback.stakes : Callback W → List Stake
  | argument resolution => resolution.stakes
  | _ => []

namespace Role

@[simp] def stakes : Role W → List Stake
  | task job => [.unit job.future]
  | query _ site => site.stakes
  | _ => []

end Role

namespace Frame

@[simp] def stakes : Frame W → List Stake
  | running role _ => role.stakes
  | waiting role _ => role.stakes
  | deliver (.future future) => [.reply future]
  | claim p => [.attempt p.future p.asker.isClient]
  | enter p => [.bound p.future p.asker.isClient]
  | push job _ => [.hand job.future]
  | checkOpen _ job _ => [.hand job.future]
  | locate _ job _ => [.hand job.future]
  | append _ _ job _ => [.hand job.future]
  | submit group _ => [.token group]
  | drain group => [.token group]
  | settle future _ => [.settle future]
  | announce future => [.announce future]
  | leave => [.guard]
  | discard _ => [.guard]
  | dropHandle => [.handle]
  | query _ site => site.stakes
  | track call _ => [.opening call.future]
  | evaluate r => r.stakes
  | turn group => [.token group]
  | endTurn group => [.token group]
  | _ => []

def stakesOf (frames : List (Frame W)) : List Stake := frames.flatMap stakes

@[simp] theorem stakesOf_nil : stakesOf ([] : List (Frame W)) = [] := rfl

@[simp] theorem stakesOf_cons (frame : Frame W) (frames : List (Frame W)) :
    stakesOf (frame :: frames) = frame.stakes ++ stakesOf frames := rfl

@[simp] theorem stakesOf_append (a b : List (Frame W)) :
    stakesOf (a ++ b) = stakesOf a ++ stakesOf b := by
  simp [stakesOf]

end Frame

@[simp] def Item.stake : Item W → Stake
  | job queued => .job queued.future
  | group queued => .token queued

def Group.stakes (g : Group W) : List Stake := g.jobs.map fun job => .job job.future

def Future.stakes (f : Future W) : List Stake := (f.callback.map Callback.stakes).getD []

namespace Shared

def stakes (s : Shared W) : List Stake :=
  s.queue.items.map Item.stake ++ s.groups.flatMap Group.stakes ++
    s.futures.flatMap Future.stakes

end Shared

def Thread.stakesOf (threads : List (Thread W)) : List Stake :=
  threads.flatMap fun t => Frame.stakesOf t.stack

def State.stakes (s : State W) : List Stake := Thread.stakesOf s.threads ++ s.shared.stakes

theorem State.stakes_of_mem {s : State W} {t : Thread W} {frame : Frame W} (mem : t ∈ s.threads)
    (inStack : frame ∈ t.stack) : frame.stakes ⊆ s.stakes := fun _ held =>
  List.mem_append_left _
    (List.mem_flatMap.2 ⟨t, mem, List.mem_flatMap.2 ⟨frame, inStack, held⟩⟩)

/-! ## What events do to stakes -/

def refusals (futures : List FutureId) : List Stake :=
  futures.flatMap fun future => [.settle future, .guard]

namespace Event

@[simp] def gone : Event → List Stake
  | claimed future byClient _ | rejected future byClient => [.attempt future byClient]
  | counted future byClient => [.bound future byClient]
  | queued future | appended _ _ future _ | refused future | stranded future => [.hand future]
  | drained group futures => .token group :: futures.map Stake.job
  | closed futures => futures.map Stake.job
  | started future | turned _ _ future => [.job future]
  | ended future _ => [.unit future]
  | notified future _ failing => .settle future :: (failing.map Stake.call).toList
  | ignored future => [.settle future]
  | announced future => [.announce future]
  | left => [.guard]
  | turnEnded group => [.token group]
  | tracked future | faulted future _ => [.opening future]
  | failed future _ | placed future => [.call future]
  | handleDropped _ => [.handle]
  | handed future => [.reply future]
  | _ => []

@[simp] def made : Event → List Stake
  | created future => [.reply future]
  | opened future fault _ =>
    [.reply future, if fault.isSome then .settle future else .opening future]
  | argument future _ => [.attempt future false, .handle]
  | asked future => [.attempt future false]
  | requested future => [.attempt future true]
  | claimed future byClient _ => [.bound future byClient]
  | counted future _ => [.hand future]
  | queued future => [.job future]
  | appended _ group future took => .job future :: if took then [.token group] else []
  | refused future | stranded future => refusals [future]
  | drained _ futures | closed futures => refusals futures
  | started future | turned _ _ future => [.unit future]
  | ended future _ => [.settle future, .guard]
  | notified future _ failing =>
    .announce future ::
      (failing.map fun call => [.settle call, .guard, .handle]).getD []
  | tracked future => [.call future]
  | faulted future _ => [.settle future]
  | failed future _ => [.settle future, .guard, .handle]
  | placed future => [.attempt future false, .guard, .handle]
  | resolving | relinquished => [.handle]
  | _ => []

end Event
end Strands
