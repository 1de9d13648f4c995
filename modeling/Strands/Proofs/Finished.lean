/-
Work that is over.

When no work is in flight and nothing was refused, what was begun has run its course:
`Trace.finished`.  From then on nobody acts on its behalf, so whatever happens later
is none of its doing: `Trace.not_context_of_finished`.  `Rest` is such a moment of a history;
there is one whenever a shutdown has waited for all work in flight, provided that no
worker has begun to shut down: `Trace.rest`.
-/
import Strands.Proofs.Idle
import Strands.Proofs.Lanes

namespace Strands

variable {W : Type}

def Event.isShutdown (worker : Bool) : Event → Bool
  | shutdown onWorker => onWorker == worker
  | _ => false

theorem Event.isShutdown_iff (worker : Bool) (e : Event) :
    e.isShutdown worker = true ↔ e = .shutdown worker := by
  cases e <;> simp [isShutdown]

instance (worker : Bool) (history : List Event) : Decidable (.shutdown worker ∈ history) :=
  decidable_of_iff _ (any_iff_mem (Event.isShutdown_iff worker))

/-- No shutdown has begun. -/
def Unstopped (history : List Event) : Prop := ∀ worker, .shutdown worker ∉ history

instance (history : List Event) : Decidable (Unstopped history) :=
  inferInstanceAs (Decidable (∀ worker, .shutdown worker ∉ history))

/-- The queue is not closed in a history that can be looked through. -/
theorem not_closed {history : List Event}
    (none : history.all (fun | .closed _ => false | _ => true) = true) (futures : List FutureId) :
    .closed futures ∉ history := fun closed => by
  cases List.all_eq_true.1 none _ closed

/-- A future is complete and its callback has returned; its unit has ended if it had
one, and its call waits for no arguments if it is a call's. -/
structure Finished (history : List Event) (f : FutureId) : Prop where
  born : 0 < tally (Event.births f) history
  notified : 0 < tally (Event.notifies f) history
  announced : 0 < tally (Event.announces f) history
  ended : 0 < tally (Event.claims f) history → 0 < tally (Event.ends f) history
  argued : tally (Event.opens f) history ≤
    tally (fun e => e.fails f + e.places f + e.faults f) history

/-- Who acts on behalf of a future runs its unit or its callback. -/
theorem of_mem_context {f : FutureId} {below : List (Frame W)} (h : f ∈ context below) :
    .unit f ∈ Frame.stakesOf below ∨ .announce f ∈ Frame.stakesOf below := by
  obtain ⟨frame, mem, behalf⟩ := List.mem_flatMap.1 h
  have held {stake : Stake} (h : stake ∈ frame.stakes) : stake ∈ Frame.stakesOf below :=
    List.mem_flatMap.2 ⟨frame, mem, h⟩
  cases frame with
  | running role code =>
    cases role with
    | task job =>
      obtain rfl : f = job.future := List.mem_singleton.1 behalf
      exact .inl (held (List.mem_singleton.2 rfl))
    | _ => cases behalf
  | waiting role next =>
    cases role with
    | task job =>
      obtain rfl : f = job.future := List.mem_singleton.1 behalf
      exact .inl (held (List.mem_singleton.2 rfl))
    | _ => cases behalf
  | announce g =>
    obtain rfl : f = g := List.mem_singleton.1 behalf
    exact .inr (held (List.mem_singleton.2 rfl))
  | _ => cases behalf

namespace State

variable {client : Client W} {workers : Nat} {world : W} {kept : List ObjectId}
  {threads : List (Code W)} {s : State W} {history : List Event}

namespace Trace

/-! ## Refusals -/

section

variable (trace : Trace client (State.start workers world kept threads) history s)

include trace

/-- Jobs are refused only once the queue is closed. -/
theorem closed_of_refused {f : FutureId} (refused : Refused history f) :
    ∃ futures, .closed futures ∈ history := by
  rcases refused with mem | mem | ⟨group, futures, mem, _⟩ | ⟨futures, mem, _⟩
  · obtain ⟨before, after, rfl⟩ := List.append_of_mem mem
    obtain ⟨moment⟩ := trace.split
    obtain ⟨futures, mem⟩ := moment.trace.closed_of_queue moment.accounts.finds
    exact ⟨futures, List.mem_append_left _ mem⟩
  · exact absurd mem (trace.not_stranded f)
  · obtain ⟨before, after, rfl⟩ := List.append_of_mem mem
    obtain ⟨moment, frame, place, futures, mem⟩ := trace.sound
    exact ⟨futures, List.mem_append_left _ mem⟩
  · exact ⟨futures, mem⟩

theorem not_refused_of_open (isOpen : ∀ futures, .closed futures ∉ history) (f : FutureId) :
    ¬ Refused history f := fun refused => by
  obtain ⟨futures, closed⟩ := trace.closed_of_refused refused
  exact isOpen futures closed

theorem idle_of_closed (graceful : .shutdown true ∉ history) {futures : List FutureId}
    (closed : .closed futures ∈ history) : .idle ∈ history := by
  obtain ⟨before, after, rfl⟩ := List.append_of_mem closed
  obtain ⟨moment, frame, place, worker | idle⟩ := trace.sound
  · exact absurd (List.mem_append_left _ worker) graceful
  · exact List.mem_append_left _ idle

theorem not_refused_of_busy (graceful : .shutdown true ∉ history) (busy : .idle ∉ history)
    (f : FutureId) : ¬ Refused history f := fun refused => by
  obtain ⟨futures, closed⟩ := trace.closed_of_refused refused
  exact busy (trace.idle_of_closed graceful closed)

/-! ## Nothing in flight -/

theorem weigh_of_share (idle : s.shared.inFlight = 0) {w : Stake → Nat}
    (h : ∀ stake, w stake ≤ stake.share) : weigh w s.stakes = 0 := by
  have le := weigh_le_weigh h s.stakes
  have law := trace.share_law
  omega

/-- What is complete while no work is in flight has run its course. -/
theorem finished (idle : s.shared.inFlight = 0) {f : FutureId} (calm : ¬ Refused history f)
    (awaited : ¬ Awaited history s f) (unbound : weigh (Stake.binds f) s.stakes = 0)
    (notified : 0 < tally (Event.notifies f) history) : Finished history f where
  born := by
    rw [trace.recorded.births]
    rw [tally_notifies, trace.recorded.outcomes] at notified
    cases found : s.shared.futures.get? f with
    | none => simp [found] at notified
    | some u => simp
  notified := notified
  announced := by
    have mem := trace.idle_announced idle awaited notified
    exact tally_pos_of_mem mem (one_self f)
  ended claimed := by
    have bound := trace.bound_law f
    have hand := trace.hand_law f
    have job := trace.job_law f
    have unit := trace.unit_law f
    have hands := trace.weigh_of_share idle (w := Stake.hands f) fun stake => by
      cases stake <;> simp [Stake.hands, Stake.share, one_le]
    have queues := trace.weigh_of_share idle (w := Stake.queues f) fun stake => by
      cases stake <;> simp [Stake.queues, Stake.share, one_le]
    have runs := trace.weigh_of_share idle (w := Stake.runs f) fun stake => by
      cases stake <;> simp [Stake.runs, Stake.share, one_le]
    rw [refused_iff] at calm
    rw [tally_add] at hand job
    omega
  argued := by
    have law := trace.call_law f
    have none : ¬ 0 < weigh (Stake.waits f) s.stakes := fun pos => by
      obtain ⟨stake, mem, pos⟩ := weigh_pos pos
      cases stake with
      | opening g =>
        obtain rfl : g = f := one_pos pos
        exact awaited (trace.awaited_of_opening mem)
      | call g => cases trace.not_share idle mem
      | _ => cases pos
    omega

end

/-! ## Afterwards -/

section

variable {before after : List Event} (eq : history = before ++ after)
  (trace : Trace client (State.start workers world kept threads) history s)
  {f : FutureId} (finished : Finished before f)

include eq trace finished

theorem waits_of_finished : weigh (Stake.waits f) s.stakes = 0 := by
  subst eq
  have law := trace.call_law f
  have born := finished.born
  have once := trace.births_le f
  have argued := finished.argued
  have opens := tally_le_tally (m := Event.opens f) (n := Event.births f)
    (fun e => by cases e <;> simp [Event.opens, Event.births]) after
  rw [tally_append] at law once
  rw [tally_append] at law
  omega

theorem earlier_of_argument {d : FutureId} (mem : .argument d (some f) ∈ history) :
    .argument d (some f) ∈ before := by
  subst eq
  refine (List.mem_append.1 mem).resolve_right fun later => ?_
  obtain ⟨mid, tail, rfl⟩ := List.append_of_mem later
  rw [← List.append_assoc] at trace
  obtain ⟨moment, frame, place, sound⟩ := trace.sound
  have none := moment.trace.waits_of_finished rfl finished
  have waits := weigh_pos_of_mem (w := Stake.waits f) (place.mem_stakes (sound f rfl)) (one_self f)
  omega

variable (single : 0 < tally (Event.claims f) before ∨ ¬ Taken history f)

include single

/-- Nobody acts on behalf of what is finished. -/
theorem not_context_of_finished {frame : Frame W} (place : Place history s frame) :
    f ∉ context place.below := fun mem => by
  have runs : weigh (Stake.runs f) s.stakes = 0 := by
    rcases single with claimed | untaken
    · have law := trace.unit_law f
      have once := trace.runs_le f
      have ended := finished.ended claimed
      rw [eq, tally_append] at law
      rw [eq] at once
      omega
    · have balance := trace.course_balance f untaken
      have notified := finished.notified
      rw [eq, tally_append] at balance
      have le := weigh_le_weigh (w := Stake.runs f)
        (v := fun stake => stake.chain f + stake.work f)
        (fun stake => by cases stake <;> simp [Stake.runs, Stake.work]) s.stakes
      omega
  have announces : weigh (Stake.announces f) s.stakes = 0 := by
    have law := trace.announce_law f
    have once := trace.notifies_le f
    have announced := finished.announced
    rw [eq, tally_append] at law
    rw [eq] at once
    omega
  rcases of_mem_context mem with held | held
  · have pos := weigh_pos_of_mem (w := Stake.runs f) held (one_self f)
    have le := place.weigh_below_le (Stake.runs f)
    omega
  · have pos := weigh_pos_of_mem (w := Stake.announces f) held (one_self f)
    have le := place.weigh_below_le (Stake.announces f)
    omega

theorem claims_of_finished (claimed : 0 < tally (Event.claims f) history) :
    0 < tally (Event.claims f) before := by
  subst eq
  rcases single with earlier | untaken
  · exact earlier
  by_contra never
  have later : 0 < tally (Event.claims f) after := by
    rw [tally_append] at claimed
    omega
  obtain ⟨e, mem, pos⟩ := tally_pos later
  obtain ⟨byClient, behalf, rfl⟩ := Event.of_claims pos
  obtain ⟨mid, tail, rfl⟩ := List.append_of_mem mem
  -- It is complete without having been bound, so it is that of a call that failed.
  obtain ⟨first, trace₁⟩ := trace.ofPrefix
  have notified := finished.notified
  have work := trace₁.work_law f
  have call := trace₁.call_law f
  simp only [tally_add] at work call
  cases byClient with
  | true =>
    refine untaken (taken_iff.2 ⟨?_, ?_⟩)
    · rw [tally_append]
      omega
    · rw [tally_append, tally_append, tally_cons, Event.takes, one_self]
      omega
  | false =>
    rw [← List.append_assoc] at trace untaken
    obtain ⟨moment⟩ := trace.split
    have balance := moment.trace.course_balance f fun taken => untaken taken.mono
    have attempt := moment.accounts.stakes (Stake.chain f)
    simp only [Event.gone, Event.made, weigh_cons, weigh_nil, Stake.chain, one_self] at attempt
    rw [weigh_add, tally_append] at balance
    omega

theorem ends_of_finished (claimed : 0 < tally (Event.claims f) history) :
    0 < tally (Event.ends f) history := by
  have ended := finished.ended (trace.claims_of_finished eq finished single claimed)
  rw [eq, tally_append]
  omega

theorem not_refused_of_finished : ¬ Refused history f := by
  rw [refused_iff]
  intro refused
  have once := trace.runs_le f
  have bound := trace.bound_law f
  have hand := trace.hand_law f
  have job := trace.job_law f
  have unit := trace.unit_law f
  rw [tally_add] at hand job
  have ended := trace.ends_of_finished eq finished single (by omega)
  omega

/-- What was done on behalf of what is finished was done before. -/
theorem earlier_of_finished {e : Event} (mem : e ∈ history) {behalf : List FutureId}
    (acts : ∀ (s : Shared W) (h : List Event) (frame : Frame W) (below : List (Frame W)),
      e.Sound s h frame below → behalf = context below) (among : f ∈ behalf) : e ∈ before := by
  subst eq
  refine (List.mem_append.1 mem).resolve_right fun later => ?_
  obtain ⟨mid, tail, rfl⟩ := List.append_of_mem later
  rw [← List.append_assoc] at trace single
  obtain ⟨moment, frame, place, sound⟩ := trace.sound
  rw [acts _ _ _ _ sound] at among
  exact moment.trace.not_context_of_finished rfl finished
    (single.imp_right fun untaken taken => untaken taken.mono) place among

end

end Trace

/-! ## Moments of rest -/

/-- A moment of a history when no work is in flight and nothing was refused.  What went
before the first shutdown went before it. -/
structure Rest (client : Client W) (start : State W) (history : List Event) where
  before : List Event
  after : List Event
  eq : history = before ++ after
  s : State W
  trace : Trace client start before s
  idle : s.shared.inFlight = 0
  calm : ∀ f, ¬ Refused before f
  first : ∀ a b, history = a ++ b → Unstopped a → ∃ c, before = a ++ c

/-- When a shutdown has waited, or no work is in flight, there was a moment of rest. -/
theorem Trace.rest (trace : Trace client (State.start workers world kept threads) history s)
    (graceful : .shutdown true ∉ history) (h : .idle ∈ history ∨ s.shared.inFlight = 0) :
    Nonempty (Rest client (State.start workers world kept threads) history) := by
  by_cases waited : .idle ∈ history
  · obtain ⟨before, after, rfl, first⟩ := List.eq_append_cons_of_mem waited
    obtain ⟨moment, frame, place, worker, began⟩ := trace.sound
    have graceful' : .shutdown true ∉ before := fun mem => graceful (List.mem_append_left _ mem)
    refine ⟨before, .idle :: after, rfl, moment.s, moment.trace, moment.accounts.finds,
      moment.trace.not_refused_of_busy graceful' first, fun a b eq unstopped => ?_⟩
    rcases List.append_eq_append_iff.1 eq with ⟨c, rfl, _⟩ | ⟨c, rfl, _⟩
    · exact absurd (List.mem_append_left _ began) (unstopped worker)
    · exact ⟨c, rfl⟩
  · exact ⟨history, [], (List.append_nil _).symm, s, trace, h.resolve_left waited,
      trace.not_refused_of_busy graceful waited, fun a b eq _ => ⟨b, eq⟩⟩

end State
end Strands
