/-
What is left when no work is in flight.

With no share of the count held, nothing is on its way, waits, runs or is covered by a
share.  What is left to be done for a future is then done by a caller who has not yet
been handed it, or for the scheduler's own use, or by a client that has bound the
future and not yet counted its unit: `Trace.idle_course`.  In all other cases a future
that was begun is complete, and its callback has returned: `Trace.idle_completed`.
-/
import Strands.Proofs.Sound

namespace Strands

variable {W : Type}

def Awaited (history : List Event) (s : State W) (f : FutureId) : Prop :=
  Nonempty (Place history s (.deliver (.future f)))

/-- A client's call to place a unit has bound the future and is not over: the unit is
not yet counted. -/
def Binding (s : State W) (f : FutureId) : Prop :=
  ∃ t ∈ s.threads, ∃ p : Placing W, .enter p ∈ t.stack ∧ p.future = f ∧ p.asker = .client f

/-- The future has an outcome, its callback was notified of it and of nothing else, and
the callback has returned. -/
def Completed (history : List Event) (s : State W) (f : FutureId) (outcome : Outcome) : Prop :=
  ∃ u, s.shared.futures.get? f = some u ∧ u.state = some outcome ∧ u.notified = true ∧
    outcomes f history = [outcome]

theorem Place.awaited {history : List Event} {s : State W} {frame : Frame W} {f : FutureId}
    (place : Place history s frame) (replied : Replied history f place.below) :
    Awaited history s f := by
  obtain ⟨lowest, _⟩ := place.lower replied.1
  exact ⟨lowest⟩

namespace State.Trace

variable {client : Client W} {workers : Nat} {world : W} {kept : List ObjectId}
  {threads : List (Code W)} {s : State W} {history : List Event}

theorem not_awaited_of_handed
    (trace : Trace client (State.start workers world kept threads) history s) {f : FutureId}
    (handed : .handed f ∈ history) : ¬ Awaited history s f := by
  rintro ⟨place⟩
  have reply : Stake.reply f ∈ s.stakes := place.mem_stakes (List.mem_singleton.2 rfl)
  have held := weigh_pos_of_mem (w := Stake.replies f) reply (one_self f)
  have none := trace.replies_of_handed f handed
  omega

theorem not_spare_of_handed
    (trace : Trace client (State.start workers world kept threads) history s) {f : FutureId}
    (handed : .handed f ∈ history) : ¬ Spare history f := by
  have none := trace.spares_of_handed f handed
  rintro (⟨call, mem⟩ | mem)
  · have spares := tally_pos_of_mem (n := Event.spares f) mem (one_self f)
    omega
  · have spares := tally_pos_of_mem (n := Event.spares f) mem (one_self f)
    omega

/-- A future whose callback was notified and has returned is complete. -/
theorem completed_of_notified
    (trace : Trace client (State.start workers world kept threads) history s) {f : FutureId}
    {outcome : Outcome} {failing : Option FutureId}
    (notified : .notified f outcome failing ∈ history) (announced : .announced f ∈ history) :
    Completed history s f outcome := by
  have recorded := trace.recorded
  have mem : outcome ∈ outcomes f history := mem_outcomes.2 ⟨failing, notified⟩
  rw [recorded.outcomes f, Option.mem_toList, Option.bind_eq_some_iff] at mem
  obtain ⟨u, found, state⟩ := mem
  refine ⟨u, found, state, (recorded.announced f u found).2 announced, ?_⟩
  rw [recorded.outcomes f, found, Option.bind_some, state]
  rfl

theorem completed_of_announced
    (trace : Trace client (State.start workers world kept threads) history s) {f : FutureId}
    (notified : 0 < tally (Event.notifies f) history) (announced : .announced f ∈ history) :
    ∃ outcome, Completed history s f outcome := by
  obtain ⟨e, mem, pos⟩ := tally_pos notified
  obtain ⟨outcome, failing, rfl⟩ := Event.of_notifies pos
  exact ⟨outcome, trace.completed_of_notified mem announced⟩

section

variable (trace : Trace client (State.start workers world kept threads) history s)
  (idle : s.shared.inFlight = 0) {f : FutureId}

include trace idle

theorem awaited_of_covered {frame : Frame W} (place : Place history s frame)
    (covered : Covered history f place.below) : Awaited history s f := by
  rcases covered with guarded | replied
  · exact absurd guarded (trace.not_guarded idle place)
  · exact place.awaited replied

theorem awaited_of_announce (h : .announce f ∈ s.stakes) : Awaited history s f := by
  obtain ⟨frame, holds, ⟨place⟩⟩ := trace.place h rfl
  obtain rfl := holds
  exact trace.awaited_of_covered idle place place.grounded.2

theorem awaited_of_settle (h : .settle f ∈ s.stakes) : Awaited history s f := by
  obtain ⟨frame, ⟨outcome, rfl⟩, ⟨place⟩⟩ := trace.place h rfl
  exact trace.awaited_of_covered idle place place.grounded.2

omit idle in
theorem awaited_of_opening (h : .opening f ∈ s.stakes) : Awaited history s f := by
  obtain ⟨frame, ⟨call, rfl, found⟩, ⟨place⟩⟩ := trace.place h rfl
  rcases found with ⟨lane, rfl⟩ | ⟨object, rfl⟩ | ⟨object, code, rfl⟩ | ⟨object, next, rfl⟩
  all_goals exact place.awaited place.grounded

theorem spare_of_placing {frame : Frame W} (place : Place history s frame) {p : Placing W}
    (grounded : p.Grounded history place.below) (own : p.asker.isClient = false) :
    Spare history p.future := by
  unfold Placing.Grounded at grounded
  cases asker : p.asker with
  | client g => rw [asker] at own; cases own
  | nobody =>
    rw [asker] at grounded
    exact grounded.resolve_left (trace.not_guarded idle place)

theorem spare_of_attempt (h : .attempt f false ∈ s.stakes) : Spare history f := by
  obtain ⟨frame, ⟨p, rfl, rfl, own⟩, ⟨place⟩⟩ := trace.place h rfl
  exact trace.spare_of_placing idle place place.grounded own

theorem spare_of_bound (h : .bound f false ∈ s.stakes) : Spare history f := by
  obtain ⟨frame, ⟨p, rfl, rfl, own⟩, ⟨place⟩⟩ := trace.place h rfl
  exact trace.spare_of_placing idle place place.grounded.1 own

/-- What is under way for a future when no work is in flight. -/
theorem idle_course (h : 0 < weigh (fun stake => stake.chain f + stake.work f) s.stakes) :
    Awaited history s f ∨ Spare history f ∨ .bound f true ∈ s.stakes := by
  obtain ⟨stake, mem, pos⟩ := weigh_pos h
  have noShare := trace.not_share idle mem
  cases stake with
  | opening g =>
    obtain rfl : g = f := one_pos (by simpa [Stake.chain, Stake.work] using pos)
    exact .inl (trace.awaited_of_opening mem)
  | settle g =>
    obtain rfl : g = f := one_pos (by simpa [Stake.chain, Stake.work] using pos)
    exact .inl (trace.awaited_of_settle idle mem)
  | attempt g byClient =>
    cases byClient with
    | true => simp [Stake.chain, Stake.work] at pos
    | false =>
      obtain rfl : g = f := one_pos (by simpa [Stake.chain, Stake.work] using pos)
      exact .inr (.inl (trace.spare_of_attempt idle mem))
  | bound g byClient =>
    obtain rfl : g = f := one_pos (by simpa [Stake.chain, Stake.work] using pos)
    cases byClient with
    | true => exact .inr (.inr mem)
    | false => exact .inr (.inl (trace.spare_of_bound idle mem))
  | hand g | job g | unit g | call g => cases noShare
  | _ => simp [Stake.chain, Stake.work] at pos

omit idle in
/-- Something is under way for a future that was begun or bound and has no outcome. -/
theorem under_way (never : tally (Event.notifies f) history = 0)
    (begun : 0 < tally (Event.begins f) history ∨ 0 < tally (Event.claims f) history) :
    0 < weigh (fun stake => stake.chain f + stake.work f) s.stakes := by
  have ignores : ¬ 0 < tally (Event.ignores f) history := fun h => by
    have := trace.notifies_of_ignores f h
    omega
  have course := trace.course_law f
  have work := trace.work_law f
  rw [tally_add, tally_add, tally_add] at course work
  rw [weigh_add] at course ⊢
  by_cases claimed : 0 < tally (Event.claims f) history
  · omega
  · have rejects : ¬ 0 < tally (Event.rejects f) history := fun h =>
      claimed (trace.claims_of_rejects f h)
    omega

/-- A future that was begun or bound is complete, unless it is one of the exceptions. -/
theorem idle_notifies (awaited : ¬ Awaited history s f) (spare : ¬ Spare history f)
    (bound : .bound f true ∉ s.stakes)
    (begun : 0 < tally (Event.begins f) history ∨ 0 < tally (Event.claims f) history) :
    0 < tally (Event.notifies f) history := by
  by_contra never
  refine absurd (trace.idle_course idle (f := f) ?_) (by simp [awaited, spare, bound])
  exact trace.under_way (by omega) begun

theorem idle_announced (awaited : ¬ Awaited history s f)
    (notified : 0 < tally (Event.notifies f) history) : .announced f ∈ history := by
  have law := trace.announce_law f
  by_cases running : 0 < weigh (Stake.announces f) s.stakes
  · obtain ⟨stake, mem, pos⟩ := weigh_pos running
    cases stake with
    | announce g =>
      obtain rfl : g = f := one_pos (by simpa [Stake.announces] using pos)
      exact absurd (trace.awaited_of_announce idle mem) awaited
    | _ => simp [Stake.announces] at pos
  · have announces : 0 < tally (Event.announces f) history := by omega
    obtain ⟨e, mem, pos⟩ := tally_pos announces
    exact Event.of_announces pos ▸ mem

theorem idle_completed (awaited : ¬ Awaited history s f)
    (notified : 0 < tally (Event.notifies f) history) :
    ∃ outcome, Completed history s f outcome :=
  trace.completed_of_announced notified (trace.idle_announced idle awaited notified)

end

end State.Trace
end Strands
