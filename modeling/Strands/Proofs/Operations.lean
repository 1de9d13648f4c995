/-
Operations in a runtime that is closed for good.

An operation is whatever managed code waits for a reply to.  Its thread has nothing to do for
it but what leads nowhere (`Futile`): nothing is queued, no group is found, and a shutdown
returns at once.  So each of its steps leaves the run queue and the lanes alone
(`Operation.Stage.step`), and the count of work in flight is the same after it as before, but for
what others have taken and given back in the meantime (`Operation.Underway.balanced`).

`Operation.Underway.stages` follows an operation through what is special to it, and counts its
own steps.
-/
import Strands.Proofs.Hosted
import Strands.Proofs.FlightShares
import Strands.Proofs.Sealed

namespace Strands

variable {W : Type}

/-- What code goes on with that waits for a reply to what it does next. -/
def Code.reply? : Code W → Option (Reply → Code W)
  | ask _ next | create _ _ next | schedule _ _ _ next | invoke _ _ _ next
  | resolve _ _ _ _ _ next => some next
  | _ => none

def Futile (frames : List (Frame W)) : Prop := Aside frames ∧ Unshutting frames

theorem futile_cons {frame : Frame W} {frames : List (Frame W)} : Futile (frame :: frames) ↔
    (frame.isAside = true ∧ frame.isShutting = false) ∧ Futile frames := by
  rw [Futile, aside_cons, unshutting_cons, and_and_and_comm, Futile]

theorem futile_append {a b : List (Frame W)} : Futile (a ++ b) ↔ Futile a ∧ Futile b := by
  rw [Futile, aside_append, unshutting_append, and_and_and_comm, Futile, Futile]

theorem futile_nil : Futile ([] : List (Frame W)) := ⟨aside_nil, unshutting_nil⟩

section Steps

variable {client : Client W} {sight : Sight} {choice : Choice} {s : Shared W} {p : Progress W}

theorem Code.step_asks {role : Role W} {code : Code W} {next : Reply → Code W} {late : Bool}
    (asks : code.reply? = some next) (taken : code.step client sight late s role = some p) :
    ∃ above, p.frames = above ++ [.waiting role next] := by
  cases code with
  | ask | create | schedule | invoke | resolve =>
    cases asks
    cases taken
    first | exact ⟨_, rfl⟩ | exact ⟨[_], rfl⟩ | exact ⟨[_, _], rfl⟩
  | _ => cases asks

theorem Frame.not_close_of_unshutting {frame : Frame W} (unshutting : frame.isShutting = false) :
    frame ≠ .close := by
  rintro rfl
  cases unshutting

/-- What leads nowhere leaves only what leads nowhere. -/
theorem Frame.step_futile {frame : Frame W} (closed : s.queue.closed = true)
    (up : s.flag = true) (aside : frame.isAside = true) (unshutting : frame.isShutting = false)
    (taken : frame.step client sight choice s = some p) : Futile p.frames := by
  refine ⟨step_aside aside (not_close_of_unshutting unshutting) (fun _ _ _ _ => closed) taken, ?_⟩
  by_cases shutdown : frame = .shutdown
  · subst shutdown
    cases taken
    simp [shutdownStep, up]
  · exact (step_aloof unshutting shutdown taken).frames

/-- What leads nowhere leaves the run queue and the lanes alone. -/
theorem Frame.step_futile_still {frame : Frame W} (closed : s.queue.closed = true)
    (aside : frame.isAside = true) (unshutting : frame.isShutting = false)
    (taken : frame.step client sight choice s = some p) :
    p.shared.queue.items = s.queue.items ∧ p.shared.groups = s.groups := by
  by_cases blind : frame.isBlind = true
  · have same := Frame.step_adopt_self blind taken
    exact ⟨(congrArg (fun s => s.queue.items) same).symm, (congrArg Shared.groups same).symm⟩
  cases frame with
  | running role code =>
    cases code with
    | ask request next =>
      cases request with
      | sweep | groupCount => cases taken; exact ⟨rfl, rfl⟩
      | _ => exact absurd rfl blind
    | await ready next =>
      simp only [step, Code.step] at taken
      split at taken <;> cases taken
      exact ⟨rfl, rfl⟩
    | _ => exact absurd rfl blind
  | push job asker =>
    cases taken
    simp only [pushStep, RunQueue.push, closed, if_true, and_self]
  | locate receiver job asker | append receiver group job asker | submit group asker
  | drain group | poll | turn group | endTurn group => cases aside
  | close => cases unshutting
  | _ => exact absurd rfl blind

theorem Move.step_futile {top : List (Frame W)} (closed : s.queue.closed = true)
    (up : s.flag = true) (futile : Futile top) (move : Move client sight choice s top p) :
    Futile p.frames ∧ p.shared.queue.items = s.queue.items ∧ p.shared.groups = s.groups := by
  cases move with
  | receive reply role next =>
    refine ⟨futile_cons.2 ⟨⟨rfl, rfl⟩, futile_nil⟩, ?_⟩
    cases reply <;> exact ⟨rfl, rfl⟩
  | pass reply held => exact ⟨futile_cons.2 ⟨⟨rfl, rfl⟩, futile_nil⟩, rfl, rfl⟩
  | act moved =>
    obtain ⟨aside, unshutting⟩ := (futile_cons.1 futile).1
    exact ⟨Frame.step_futile closed up aside unshutting moved,
      Frame.step_futile_still closed aside unshutting moved⟩

end Steps

/-- Managed code has a thread here, or waits to have it back. -/
def Frame.isBusy : Frame W → Bool
  | running _ code => code.result?.isNone
  | waiting _ _ => true
  | _ => false

theorem Role.load_stakes {role : Role W} (idle : role.isTask = false) (fs fs' : Futures W) :
    weigh (Stake.load fs) role.stakes = weigh (Stake.load fs') role.stakes := by
  refine congrArg List.sum (List.map_congr_left fun stake mem => ?_)
  cases role with
  | task job => cases idle
  | query object site => rcases Site.mem_stakes mem with ⟨call, _, rfl⟩ | ⟨f, rfl⟩ <;> rfl
  | _ => cases mem

namespace Acted

variable {client : Client W} {s s' : State W} {thread : ThreadId} {choice : Choice}
  (acted : Acted client s s' thread choice)

theorem below_subset_others : acted.below ⊆ acted.others := fun _ mem =>
  List.mem_append_left _ (List.mem_append_right _ mem)

theorem stackOf_subset_others {other : ThreadId} (different : other ≠ thread) :
    s.stackOf other ⊆ acted.others := by
  intro frame mem
  obtain ⟨before, rfl, after, actor, top, below, p, threads, _⟩ := acted
  unfold State.stackOf at mem
  rw [threads] at mem
  rcases Nat.lt_or_gt_of_ne different with lt | gt
  · rw [List.getElem?_append_left lt] at mem
    cases found : before[other]? with
    | none => simp [found] at mem
    | some t =>
      rw [found] at mem
      refine List.mem_append_left _ (List.mem_append_left _ ?_)
      exact List.mem_flatMap.2 ⟨t, List.mem_of_getElem? found, mem⟩
  · obtain ⟨n, rfl⟩ := Nat.exists_eq_add_of_lt gt
    rw [Nat.add_assoc, List.getElem?_append_right (Nat.le_add_right _ _),
      Nat.add_sub_cancel_left, List.getElem?_cons_succ] at mem
    cases found : after[n]? with
    | none => simp [found] at mem
    | some t =>
      rw [found] at mem
      exact List.mem_append_right _ (List.mem_flatMap.2 ⟨t, List.mem_of_getElem? found, mem⟩)

end Acted

/-! ## Operations -/

/-- Something that a thread is about to do and to be answered to, and what the thread has left to
do then. -/
structure Operation (W : Type) where
  thread : ThreadId
  role : Role W
  code : Code W
  next : Reply → Code W
  below : List (Frame W)
  asks : code.reply? = some next

namespace Operation

variable (d : Operation W)

def begun : List (Frame W) := .running d.role d.code :: d.below

def waits : List (Frame W) := .waiting d.role d.next :: d.below

def replies (reply : Reply) : List (Frame W) := .deliver reply :: d.waits

def others (log : List (Beat W)) : List (Beat W) := log.filter fun beat => beat.thread != d.thread

/-- Client code that the operation runs has the thread, or something that this has asked for. -/
def lends (stack : List (Frame W)) : Bool :=
  (stack.take (stack.length - d.waits.length)).any Frame.isBusy

/-- The operation's own steps: those of its thread, but for client code. -/
def own (log : List (Beat W)) : List (Beat W) :=
  log.filter fun beat => beat.thread == d.thread && !d.lends (beat.s.stackOf d.thread)

/-- A thread has begun the operation and has not been replied to. -/
structure Underway (client : Client W) (s₀ : State W) (during : List (Beat W)) (s : State W) :
    Prop where
  called : s₀.stackOf d.thread = d.begun
  going : State.Log client s₀ during s
  unreplied : ∀ beat ∈ during, beat.thread = d.thread →
    ∀ reply, beat.s.stackOf d.thread ≠ d.replies reply

structure Lasts (s : State W) : Prop where
  closed : s.Sealed
  unreplied : ∀ reply, s.stackOf d.thread ≠ d.replies reply

inductive Stage : List (Frame W) → Prop
  | begun : Stage d.begun
  | does (above : List (Frame W)) : Futile above → Stage (above ++ d.waits)

variable {d} {client : Client W} {s₀ s s' : State W} {before during : List (Beat W)}
  {choice : Choice}

theorem Stage.ne_nil {stack : List (Frame W)} (stage : d.Stage stack) : stack ≠ [] := by
  cases stage <;> simp [Operation.begun, waits]

theorem Stage.below_subset {stack : List (Frame W)} (stage : d.Stage stack) :
    d.below ⊆ stack := by
  cases stage with
  | begun => exact List.subset_cons_self _ _
  | does above =>
    exact List.Subset.trans (List.subset_cons_self _ _) (List.subset_append_right above _)

/-- A step of the thread leads from one stage to the next, and leaves the run queue, the lanes and
what lies below the operation alone. -/
theorem Stage.step (stage : d.Stage (s.stackOf d.thread)) (lasts : d.Lasts s)
    (acted : Acted client s s' d.thread choice) :
    d.Stage (s'.stackOf d.thread) ∧ d.below <:+ acted.below ∧
      s'.shared.queue.items = s.shared.queue.items ∧ s'.shared.groups = s.shared.groups := by
  have closed := lasts.closed.closed
  have up := lasts.closed.flag
  generalize stack : s.stackOf d.thread = frames at stage
  have whole := stack.symm.trans acted.stackOf_eq
  have move := acted.move
  rw [acted.stackOf_eq', acted.shared']
  generalize acted.progress = p at move
  generalize acted.top = top at move whole
  generalize acted.below = below at whole
  cases stage with
  | begun =>
    obtain ⟨rfl, rfl⟩ : top = [.running d.role d.code] ∧ below = d.below := by
      cases move <;> cases whole
      exact ⟨rfl, rfl⟩
    have futile : Futile [Frame.running d.role d.code] :=
      futile_cons.2 ⟨⟨rfl, rfl⟩, futile_nil⟩
    obtain ⟨left, still⟩ := move.step_futile closed up futile
    refine ⟨?_, List.suffix_refl _, still⟩
    cases move with
    | act moved =>
      obtain ⟨above, frames⟩ := Code.step_asks d.asks moved
      rw [frames, futile_append] at left
      rw [frames, List.append_assoc]
      exact .does above left.1
  | does above futile =>
    rcases move.splits (by rintro reply ⟨⟩) (by rintro held ⟨⟩) whole with
      ⟨above', rfl, rfl⟩ | ⟨reply, role, next, rfl, _⟩ | ⟨_, _, _, moved⟩
    · rw [futile_append] at futile
      obtain ⟨left, still⟩ := move.step_futile closed up futile.1
      refine ⟨?_, (List.suffix_cons _ _).trans (List.suffix_append _ _), still⟩
      rw [← List.append_assoc]
      exact .does _ (futile_append.2 ⟨left, futile.2⟩)
    · exact absurd stack (lasts.unreplied reply)
    · cases moved

/-! ## The steps of an operation -/

theorem lends_above {above : List (Frame W)} :
    d.lends (above ++ d.waits) = above.any Frame.isBusy := by
  simp [lends]

/-- Code that has not ended has the thread of the operation it runs for. -/
theorem lends_of_hosted {role : Role W} {first : Code W} {above stack : List (Frame W)}
    (hosted : Hosted role first (above ++ d.waits) none stack) : d.lends stack = true := by
  generalize unended : none = ended at hosted
  cases hosted with
  | @runs code leads =>
    rw [← List.cons_append, lends_above, List.any_cons, Frame.isBusy, ← unended]
    rfl
  | waits higher leads =>
    rw [← List.cons_append, ← List.append_assoc, lends_above, List.any_append, List.any_cons]
    simp [Frame.isBusy]

theorem length_own_le {log : List (Beat W)} {beat : Beat W} :
    (d.own (log ++ [beat])).length ≤ (d.own log).length + 1 := by
  rw [own, List.filter_append, List.length_append]
  exact Nat.add_le_add_left (List.length_filter_le _ _) _

theorem own_of_lends {log : List (Beat W)} {beat : Beat W}
    (lends : d.lends (beat.s.stackOf d.thread) = true) : d.own (log ++ [beat]) = d.own log := by
  simp [own, lends]

theorem own_of_other {log : List (Beat W)} {beat : Beat W} (other : beat.thread ≠ d.thread) :
    d.own (log ++ [beat]) = d.own log := by
  simp [own, other]

section Run

open State

variable {workers : Nat} {world : W} {kept : List ObjectId} {threads : List (Code W)}
  (run : Log client (State.start workers world kept threads) before s₀) (closed : s₀.Sealed)

include run closed

theorem Underway.lasts (underway : d.Underway client s₀ during s) {beat : Beat W}
    (mem : beat ∈ during) (own : beat.thread = d.thread) : d.Lasts beat.s := by
  obtain ⟨earlier, after, rfl⟩ := List.append_of_mem mem
  exact ⟨closed.stays run underway.going.split.1, underway.unreplied beat mem own⟩

/-- Once the runtime is closed for good, an operation leads nowhere. -/
theorem Underway.stage (underway : d.Underway client s₀ during s) :
    d.Stage (s.stackOf d.thread) := by
  refine underway.going.own_induction (P := fun _ => d.Stage)
    (fun beat => underway.lasts run closed) (underway.called ▸ .begun) Stage.ne_nil
    (fun _ stage => stage) fun stage lasts taken => ?_
  obtain ⟨acted⟩ := step_cases taken
  exact (stage.step lasts acted).1

/-- What each step of the operation's thread leads on to, while it brings the reply nearer or a
client's code has the thread, bounds the operation's own steps. -/
theorem Underway.stages (underway : d.Underway client s₀ during s) {most : Nat}
    {P : List (Beat W) → Nat → List (Frame W) → Prop} (begins : P [] most d.begun)
    (others : ∀ {log left stack} {beat : Beat W}, beat.thread ≠ d.thread → P log left stack →
      P (log ++ [beat]) left stack)
    (steps : ∀ {log s s' left choice}, d.Underway client s₀ log s → d.Lasts s →
      P log left (s.stackOf d.thread) → s.step client d.thread choice = some s' →
      ∃ left', P (log ++ [⟨s, d.thread⟩]) left' (s'.stackOf d.thread) ∧
        (left' < left ∨ left' = left ∧ d.lends (s.stackOf d.thread) = true)) :
    ∃ left, P during left (s.stackOf d.thread) ∧ (d.own during).length + left ≤ most := by
  obtain ⟨called, going, unreplied⟩ := underway
  induction going with
  | start => exact ⟨most, by rwa [called], Nat.le_of_eq (Nat.zero_add _)⟩
  | @step log s s' thread choice going taken ih =>
    have earlier : d.Underway client s₀ log s :=
      ⟨called, going, fun beat mem => unreplied beat (List.mem_append_left _ mem)⟩
    obtain ⟨left, here, short⟩ := ih earlier.unreplied
    by_cases own : thread = d.thread
    · subst own
      have lasts : d.Lasts s := ⟨closed.stays run going, unreplied ⟨s, d.thread⟩ (by simp) rfl⟩
      obtain ⟨left', next, nearer | ⟨rfl, lends⟩⟩ := steps earlier lasts here taken
      · have length : (d.own (log ++ [⟨s, d.thread⟩])).length ≤ _ := length_own_le
        exact ⟨left', next, by omega⟩
      · exact ⟨left', next, by rwa [own_of_lends lends]⟩
    · obtain ⟨acted⟩ := step_cases taken
      obtain ⟨frame, rest, stack⟩ :=
        List.exists_cons_of_ne_nil (earlier.stage run closed).ne_nil
      rw [own_of_other own, acted.stackOf_other (Ne.symm own) stack, ← stack]
      exact ⟨left, others own here, short⟩

/-- The count of work in flight changes as others change it, and as what the thread has left to do
changes.  What lies below the operation stays as it is. -/
theorem Underway.flight (underway : d.Underway client s₀ during s) :
    s.shared.inFlight + tally Event.givesShare (events client (d.others during)) +
        weigh (Stake.load s₀.shared.futures) (Frame.stakesOf d.begun) =
      s₀.shared.inFlight + tally Event.takesShare (events client (d.others during)) +
        weigh (Stake.load s.shared.futures) (Frame.stakesOf (s.stackOf d.thread)) ∧
    weigh (Stake.load s.shared.futures) (Frame.stakesOf d.below) =
      weigh (Stake.load s₀.shared.futures) (Frame.stakesOf d.below) := by
  obtain ⟨called, going, unreplied⟩ := underway
  induction going with
  | start => exact ⟨by rw [called]; rfl, rfl⟩
  | @step log s s' thread choice going taken ih =>
    have unreplied' : ∀ beat ∈ log, beat.thread = d.thread →
        ∀ reply, beat.s.stackOf d.thread ≠ d.replies reply :=
      fun beat mem => unreplied beat (List.mem_append_left _ mem)
    obtain ⟨flight, below⟩ := ih unreplied'
    have stage := Underway.stage run closed ⟨called, going, unreplied'⟩
    have trace := (run.append going).trace
    obtain ⟨acted⟩ := step_cases taken
    by_cases own : thread = d.thread
    · subst own
      have lasts : d.Lasts s := ⟨closed.stays run going, unreplied ⟨s, d.thread⟩ (by simp) rfl⟩
      obtain ⟨_, lower, items, groups⟩ := stage.step lasts acted
      have others : d.others (log ++ [⟨s, d.thread⟩]) = d.others log := by simp [others]
      have top := flight_of_load trace acted taken items groups
      have beneath := load_others trace acted taken acted.below_subset_others
      rw [acted.stackOf_eq, Frame.stakesOf_append, weigh_append] at flight
      rw [others, acted.stackOf_eq', Frame.stakesOf_append, weigh_append]
      exact ⟨by omega, (load_others trace acted taken
        (List.Subset.trans lower.subset acted.below_subset_others)).trans below⟩
    · have others : d.others (log ++ [⟨s, thread⟩]) = d.others log ++ [⟨s, thread⟩] := by
        simp [others, own]
      obtain ⟨frame, rest, stack⟩ := List.exists_cons_of_ne_nil stage.ne_nil
      have stays : s'.stackOf d.thread = s.stackOf d.thread :=
        (acted.stackOf_other (Ne.symm own) stack).trans stack.symm
      have aside := acted.stackOf_subset_others (Ne.symm own)
      have loads := load_others trace acted taken aside
      have law := trace.flight_law
      have law' := (trace.step taken).flight_law
      rw [tally_append, tally_append, tally_cons, tally_cons, tally_nil, tally_nil] at law'
      rw [others, stays, events_append, tally_append, tally_append, events_cons, events_nil,
        tally_cons, tally_cons, tally_nil, tally_nil]
      have event : (⟨s, thread⟩ : Beat W).event client = s.event client thread := rfl
      rw [event]
      exact ⟨by omega, (load_others trace acted taken
        (List.Subset.trans stage.below_subset aside)).trans below⟩

/-- The count of work in flight is the same after the operation as before it, but for what others
have taken and given back. -/
theorem Underway.balanced (underway : d.Underway client s₀ during s) {reply : Reply}
    (replied : s.stackOf d.thread = d.replies reply) :
    s.shared.inFlight + tally Event.givesShare (events client (d.others during)) =
      s₀.shared.inFlight + tally Event.takesShare (events client (d.others during)) := by
  obtain ⟨flight, below⟩ := underway.flight run closed
  have idle : d.role.isTask = false := by
    obtain ⟨t, found, stack⟩ := exists_of_stackOf underway.called
    exact closed.idle t (List.mem_of_getElem? found) (.running d.role d.code)
      (stack ▸ List.mem_cons_self)
  have role := Role.load_stakes idle s.shared.futures s₀.shared.futures
  have handed :
      weigh (Stake.load s.shared.futures) (Frame.stakes (W := W) (.deliver reply)) = 0 := by
    cases reply <;> rfl
  rw [replied, begun, replies, waits] at flight
  simp only [Frame.stakesOf_cons, weigh_append, handed] at flight
  simp only [Frame.stakes] at flight
  omega

end Run

end Operation

end Strands
