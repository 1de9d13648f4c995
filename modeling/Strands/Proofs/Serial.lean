/-
Units of one receiver, one after another.

`Trace.serializes` is what a lane is for.  The units that were put on the lane of one
receiver begin to run in the order in which they were put there; a unit begins only
after the one before it has ended and its callback has returned; and the callbacks are
notified in that order too.  The part about callbacks leaves out futures that an
invocation got and that a client has bound to a unit of its own, since those are
completed by whichever comes first, the unit or the failure of the call.

While a unit of a receiver is under way its turn is still to end, and the frame that
ends it holds the token of the receiver's group.  A turn can only begin with that
token: `Moment.turn_over`.
-/
import Mathlib.Data.List.Induction
import Mathlib.Data.List.Nodup
import Strands.Proofs.Lanes
import Strands.Proofs.Replay

namespace Strands

variable {W : Type}

/-! ## Two frames -/

theorem State.weigh_add_le {s : State W} {frame other : Frame W}
    (h : ∃ t ∈ s.threads, frame ∈ t.stack) (h' : ∃ t ∈ s.threads, other ∈ t.stack)
    (ne : frame ≠ other) (w : Stake → Nat) :
    weigh w frame.stakes + weigh w other.stakes ≤ weigh w s.stakes := by
  have frames : Thread.stakesOf s.threads =
      (s.threads.flatMap Thread.stack).flatMap Frame.stakes := by
    rw [List.flatMap_assoc]
    rfl
  have le := add_le_sum_map (n := fun frame : Frame W => weigh w frame.stakes)
    (List.mem_flatMap.2 h) (List.mem_flatMap.2 h') ne
  unfold State.stakes
  rw [weigh_append, frames, weigh_flatMap]
  omega

theorem Place.inStack {history : List Event} {s : State W} {frame : Frame W}
    (place : Place history s frame) : ∃ t ∈ s.threads, frame ∈ t.stack :=
  ⟨place.thread, place.mem, by rw [place.stack]; simp⟩

/-! ## Histories of one receiver -/

theorem mem_starts {r : ObjectId} {group : GroupId} {f : FutureId} {history : List Event}
    (turned : .turned r group f ∈ history) : f ∈ starts r history :=
  List.mem_filterMap.2 ⟨_, turned, if_pos rfl⟩

theorem of_mem_starts {r : ObjectId} {f : FutureId} {history : List Event}
    (h : f ∈ starts r history) : ∃ group, .turned r group f ∈ history := by
  obtain ⟨e, mem, eq⟩ := List.mem_filterMap.1 h
  cases e with
  | turned r' group g =>
    dsimp only at eq
    split at eq
    · rename_i same
      cases eq
      exact ⟨group, same ▸ mem⟩
    · cases eq
  | _ => cases eq

theorem count_appends_le (r : ObjectId) (f : FutureId) (history : List Event) :
    (appends r history).count f ≤ tally (Event.queues f) history := by
  induction history with
  | nil => exact Nat.le_refl _
  | cons e rest ih =>
    have cons : appends r (e :: rest) = appends r [e] ++ appends r rest :=
      appends_append r [e] rest
    rw [cons, List.count_append, tally_cons]
    have here : (appends r [e]).count f ≤ e.queues f := by
      cases e with
      | appended r' group g took =>
        by_cases same : r' = r <;> simp [appends, same, Event.queues, one, List.count_singleton]
      | _ => simp [appends]
    omega

/-- The futures that satisfy a condition, in the order in which their callbacks were
notified. -/
def noticesOf (p : FutureId → Bool) (history : List Event) : List FutureId :=
  history.filterMap fun
    | .notified f _ _ => if p f then some f else none
    | _ => none

/-- The futures of a receiver's units that ran, in the order in which their callbacks
were notified, taken futures left out. -/
def notices (r : ObjectId) (history : List Event) : List FutureId :=
  noticesOf (fun f => f ∈ starts r history ∧ ¬ Taken history f) history

theorem noticesOf_append (p : FutureId → Bool) (a b : List Event) :
    noticesOf p (a ++ b) = noticesOf p a ++ noticesOf p b := List.filterMap_append

theorem of_mem_noticesOf {p : FutureId → Bool} {f : FutureId} {history : List Event}
    (h : f ∈ noticesOf p history) : ∃ outcome failing, .notified f outcome failing ∈ history := by
  obtain ⟨e, mem, eq⟩ := List.mem_filterMap.1 h
  cases e with
  | notified g outcome failing =>
    dsimp only at eq
    split at eq
    · cases eq
      exact ⟨outcome, failing, mem⟩
    · cases eq
  | _ => cases eq

theorem sublist_of_append_singleton {α : Type} {l l' : List α} {a : α}
    (h : l.Sublist (l' ++ [a])) (new : a ∉ l) : l.Sublist l' := by
  obtain ⟨l₁, l₂, rfl, first, last⟩ := List.sublist_append_iff.1 h
  cases l₂ with
  | nil => rwa [List.append_nil]
  | cons b rest =>
    have same : b = a := by simpa using last.subset List.mem_cons_self
    exact absurd (by simp [same]) new

namespace State

variable {client : Client W} {workers : Nat} {world : W} {kept : List ObjectId}
  {threads : List (Code W)} {s : State W} {history : List Event}

/-! ## A unit that ran -/

namespace Trace

section

variable (trace : Trace client (State.start workers world kept threads) history s) {f : FutureId}
  (ran : 0 < tally (Event.runs f) history)

include trace ran

theorem not_refused_of_runs : ¬ Refused history f := fun refused => by
  have once := trace.runs_le f
  have pos := refused_iff.1 refused
  omega

theorem weigh_of_runs {w : Stake → Nat} (binds : w = Stake.binds f ∨ w = Stake.hands f ∨ w = Stake.queues f) :
    weigh w s.stakes = 0 := by
  have claims := trace.claims_le f
  have bound := trace.bound_law f
  have hand := trace.hand_law f
  have job := trace.job_law f
  rw [tally_add] at hand job
  rcases binds with rfl | rfl | rfl <;> omega

theorem claims_of_runs : 0 < tally (Event.claims f) history := by
  have bound := trace.bound_law f
  have hand := trace.hand_law f
  have job := trace.job_law f
  rw [tally_add] at hand job
  omega

end

/-- What was bound and was not taken from an invocation did not fail before. -/
theorem not_failed_of_claims
    (trace : Trace client (State.start workers world kept threads) history s) {f : FutureId}
    (untaken : ¬ Taken history f) (claimed : 0 < tally (Event.claims f) history)
    {outcome : Outcome} : ¬ Failed history f outcome := fun failed => by
  have pos := failed.pos
  have work := trace.work_law f
  have course := trace.course_law f
  have once := trace.course_le f untaken
  rw [tally_add, tally_add, tally_add] at work
  rw [weigh_add, tally_add, tally_add] at course
  omega

/-- A unit is the only one of its future, and runs in one way only. -/
theorem turned_unique
    (trace : Trace client (State.start workers world kept threads) history s) {r : ObjectId}
    {g : GroupId} {f : FutureId} (h : .turned r g f ∈ history) {e : Event} (h' : e ∈ history)
    (runs : 0 < e.runs f) : e = .turned r g f := by
  have once := trace.runs_le f
  refine eq_of_tally_le_one (n := Event.runs f) (by omega) h' h runs ?_
  rw [Event.runs, one_self]
  exact Nat.one_pos

theorem of_mem_appends {r : ObjectId} {f : FutureId} (h : f ∈ appends r history) :
    ∃ group took, .appended r group f took ∈ history := by
  obtain ⟨e, mem, eq⟩ := List.mem_filterMap.1 h
  cases e with
  | appended r' group g took =>
    dsimp only at eq
    split at eq
    · rename_i same
      cases eq
      exact ⟨group, took, same ▸ mem⟩
    · cases eq
  | _ => cases eq

/-- What began to run on a receiver's lane was put there. -/
theorem starts_sublist
    (trace : Trace client (State.start workers world kept threads) history s) (r : ObjectId) :
    (starts r history).Sublist (appends r history) := by
  obtain ⟨gone, appends, started⟩ := trace.lanes.order r
  rw [appends]
  exact started.trans (List.sublist_append_left _ _)

/-- A unit that was put on a receiver's lane runs in a turn of that receiver's group. -/
theorem turned_of_appends
    (trace : Trace client (State.start workers world kept threads) history s) {r : ObjectId}
    {f : FutureId} (h : f ∈ appends r history) {e : Event} (mem : e ∈ history)
    (runs : 0 < e.runs f) : ∃ group, e = .turned r group f := by
  obtain ⟨group, took, appended⟩ := of_mem_appends h
  have once {e : Event} (mem : e ∈ history) (queues : e.queues f = 1) :
      e = .appended r group f took :=
    eq_of_tally_le_one (trace.queues_le f) mem appended (by omega)
      (by rw [Event.queues, one_self]; exact Nat.one_pos)
  cases e with
  | started g =>
    obtain rfl : g = f := one_pos runs
    cases once (trace.queued_of_started mem) (one_self g)
  | turned r' group' g =>
    obtain rfl : g = f := one_pos runs
    obtain ⟨_, _, again⟩ := of_mem_appends ((trace.starts_sublist r').subset (mem_starts mem))
    cases once again (one_self g)
    exact ⟨group', rfl⟩
  | _ => cases runs

end Trace

/-! ## The turn before -/

section Turns

variable {before : List Event} {r : ObjectId} {g g' : GroupId} {f f' : FutureId}
  (moment : Moment client (State.start workers world kept threads) before (.turned r g' f'))
  (earlier : .turned r g f ∈ before)

include moment earlier

/-- When a turn of a receiver begins, no earlier one is still to end. -/
theorem Moment.turn_over {frame : Frame W} (place : Place before moment.s frame) :
    .endTurn g ∉ place.below := fun held => by
  have lanes := moment.trace.lanes
  obtain ⟨acting, turn, sound⟩ := moment.sound
  change acting = .turn g' at sound
  subst sound
  obtain ⟨ending, _⟩ := place.lower held
  have token : 0 < weigh (Stake.tokens g') moment.s.stakes :=
    weigh_pos_of_mem (turn.mem_stakes (List.mem_singleton.2 rfl)) (one_self g')
  have token' : 0 < weigh (Stake.tokens g) moment.s.stakes :=
    weigh_pos_of_mem (ending.mem_stakes (List.mem_singleton.2 rfl)) (one_self g)
  obtain ⟨o, found, _, listed⟩ := lanes.taken_of_token token
  obtain ⟨o', found', _, listed'⟩ := lanes.taken_of_token token'
  -- Both groups are the one that the table has for the receiver.
  obtain ⟨owned, foundOwned, own⟩ := lanes.owner r g f earlier
  have shifts := (step_shift moment.taken).1
  rw [moment.event] at shifts
  obtain ⟨_, turned, _, _, foundTurned, own', _⟩ := shifts
  rw [found] at foundTurned
  rw [found'] at foundOwned
  cases foundTurned
  cases foundOwned
  rw [own'] at listed
  rw [own, listed] at listed'
  have same : g' = g := Option.some.inj listed'
  subst same
  -- Two frames hold its token.
  have both := weigh_add_le turn.inStack ending.inStack (by simp) (Stake.tokens g')
  have single := lanes.token g'
  have most := Bool.toNat_le (moment.s.shared.isTaken g')
  simp only [Frame.stakes, weigh_cons, weigh_nil, Stake.tokens, one_self] at both
  omega

theorem Moment.not_onLane {frame : Frame W} (place : Place before moment.s frame) :
    ¬ OnLane before f place.below := by
  rintro (started | ⟨r', other, turned, held⟩)
  · cases moment.trace.turned_unique earlier started (by rw [Event.runs, one_self]; omega)
  · cases moment.trace.turned_unique earlier turned (by rw [Event.runs, one_self]; omega)
    exact moment.turn_over earlier place held

theorem Moment.not_unit : .unit f ∉ moment.s.stakes := fun mem => by
  obtain ⟨frame, ⟨job, rfl, code⟩, ⟨place⟩⟩ := moment.trace.place mem rfl
  rcases code with ⟨code, rfl⟩ | ⟨next, rfl⟩
  · exact moment.not_onLane earlier place place.grounded
  · exact moment.not_onLane earlier place place.grounded

theorem Moment.ended_before : ∃ outcome, .ended f outcome ∈ before := by
  have runs := tally_pos_of_mem (n := Event.runs f) earlier (one_self f)
  have law := moment.trace.unit_law f
  have none : ¬ 0 < weigh (Stake.runs f) moment.s.stakes := fun pos => by
    obtain ⟨stake, mem, pos⟩ := weigh_pos pos
    cases stake with
    | unit h =>
      obtain rfl : h = f := one_pos pos
      exact moment.not_unit earlier mem
    | _ => cases pos
  have ends : 0 < tally (Event.ends f) before := by omega
  obtain ⟨e, mem, pos⟩ := tally_pos ends
  obtain ⟨outcome, rfl⟩ := Event.of_ends pos
  exact ⟨outcome, mem⟩

variable (untaken : ¬ Taken before f)

include untaken

theorem Moment.not_origin {frame : Frame W} (place : Place before moment.s frame)
    {outcome : Outcome} : ¬ Origin before f outcome place.below := by
  have trace := moment.trace
  have runs := tally_pos_of_mem (n := Event.runs f) earlier (one_self f)
  rintro (⟨_, onLane⟩ | ⟨refused, _⟩ | failed)
  · exact moment.not_onLane earlier place onLane
  · exact trace.not_refused_of_runs runs refused
  · exact trace.not_failed_of_claims untaken (trace.claims_of_runs runs) failed

/-- When a turn of a receiver begins, the callback of an earlier one was notified. -/
theorem Moment.notifies_before : 0 < tally (Event.notifies f) before := by
  have trace := moment.trace
  have runs := tally_pos_of_mem (n := Event.runs f) earlier (one_self f)
  have claims := trace.claims_of_runs runs
  have work := trace.work_law f
  rw [tally_add, tally_add, tally_add] at work
  by_contra never
  have ignores : ¬ 0 < tally (Event.ignores f) before := fun h =>
    never (trace.notifies_of_ignores f h)
  have held : 0 < weigh (Stake.work f) moment.s.stakes := by omega
  obtain ⟨stake, mem, pos⟩ := weigh_pos held
  cases stake with
  | bound h byClient =>
    have none := trace.weigh_of_runs runs (.inl rfl)
    have := le_weigh (w := Stake.binds f) mem
    simp only [Stake.work, Stake.binds] at *
    omega
  | hand h =>
    have none := trace.weigh_of_runs runs (.inr (.inl rfl))
    have := le_weigh (w := Stake.hands f) mem
    simp only [Stake.work, Stake.hands] at *
    omega
  | job h =>
    have none := trace.weigh_of_runs runs (.inr (.inr rfl))
    have := le_weigh (w := Stake.queues f) mem
    simp only [Stake.work, Stake.queues] at *
    omega
  | unit h =>
    obtain rfl : h = f := one_pos pos
    exact absurd mem (moment.not_unit earlier)
  | settle h =>
    obtain rfl : h = f := one_pos pos
    obtain ⟨frame, ⟨outcome, rfl⟩, ⟨place⟩⟩ := trace.place mem rfl
    exact moment.not_origin earlier untaken place place.grounded.1
  | _ => cases pos

theorem Moment.announced_before : .announced f ∈ before := by
  have trace := moment.trace
  have notifies := moment.notifies_before earlier untaken
  have law := trace.announce_law f
  have none : ¬ 0 < weigh (Stake.announces f) moment.s.stakes := fun pos => by
    obtain ⟨stake, mem, pos⟩ := weigh_pos pos
    cases stake with
    | announce h =>
      obtain rfl : h = f := one_pos pos
      obtain ⟨frame, rfl, ⟨place⟩⟩ := trace.place mem rfl
      obtain ⟨⟨outcome, origin⟩, _⟩ := place.grounded
      exact moment.not_origin earlier untaken place origin
    | _ => cases pos
  have announces : 0 < tally (Event.announces f) before := by omega
  obtain ⟨e, mem, pos⟩ := tally_pos announces
  exact Event.of_announces pos ▸ mem

end Turns

section First

variable {before : List Event} {r : ObjectId} {g : GroupId} {f : FutureId}
  (moment : Moment client (State.start workers world kept threads) before (.turned r g f))

include moment

theorem Moment.runs_zero :
    tally (Event.runs f) before = 0 ∧ tally (Event.clears f) before = 0 := by
  have once := moment.trace'.runs_le f
  simp only [tally_append, tally_cons, Event.runs, one_self] at once
  omega

theorem Moment.ends_zero : tally (Event.ends f) before = 0 := by
  have law := moment.trace.unit_law f
  have none := moment.runs_zero.1
  omega

theorem Moment.notifies_zero (untaken : ¬ Taken before f) :
    tally (Event.notifies f) before = 0 := by
  have law := moment.trace.job_law f
  have law' := moment.trace'.job_law f
  obtain ⟨runs, clears⟩ := moment.runs_zero
  rw [tally_add] at law law'
  simp only [tally_append, tally_cons, tally_nil, Event.runs, Event.queues, one_self] at law'
  have le := weigh_le_weigh (w := Stake.queues f)
    (v := fun stake => stake.chain f + stake.work f)
    (fun stake => by cases stake <;> simp [Stake.queues, Stake.work]) moment.s.stakes
  have balance := moment.trace.course_balance f untaken
  omega

end First

namespace Trace

variable (trace : Trace client (State.start workers world kept threads) history s)

include trace

/-- What a turn finds done of those before it. -/
theorem turn_after_turn {r : ObjectId} {a b c : List Event} {g g' : GroupId} {f f' : FutureId}
    (eq : history = a ++ .turned r g f :: b ++ .turned r g' f' :: c) :
    (∃ outcome, .ended f outcome ∈ b) ∧ (¬ Taken history f →
      (∃ outcome failing, .notified f outcome failing ∈ b) ∧ .announced f ∈ b) := by
  subst eq
  have earlier : .turned r g f ∈ a ++ .turned r g f :: b := by simp
  obtain ⟨moment⟩ := trace.split
  obtain ⟨first⟩ := moment.trace.split
  have later {e : Event} (n : Event → Nat) (mem : e ∈ a ++ .turned r g f :: b)
      (none : tally n a = 0) (pos : 0 < n e) (other : e ≠ .turned r g f) : e ∈ b := by
    rcases List.mem_append.1 mem with before | after
    · have := le_tally (n := n) before
      omega
    · exact (List.mem_cons.1 after).resolve_left other
  refine ⟨?_, fun untaken => ?_⟩
  · obtain ⟨outcome, mem⟩ := moment.ended_before earlier
    exact ⟨outcome, later (Event.ends f) mem first.ends_zero (by simp [Event.ends]) (by simp)⟩
  · have untaken' : ¬ Taken (a ++ .turned r g f :: b) f := fun taken => untaken taken.mono
    have none := first.notifies_zero fun taken => untaken' taken.mono
    obtain ⟨e, mem, pos⟩ := tally_pos (moment.notifies_before earlier untaken')
    obtain ⟨outcome, failing, rfl⟩ := Event.of_notifies pos
    have announced := moment.announced_before earlier untaken'
    have law := first.trace.announce_law f
    exact ⟨⟨outcome, failing, later (Event.notifies f) mem none pos (by simp)⟩,
      later (Event.announces f) announced (by omega) (by simp [Event.announces])
        (by simp)⟩

/-- When a callback is notified, its unit is the last that began to run. -/
theorem starts_of_notified {r : ObjectId} {h rest : List Event} {f : FutureId} {outcome : Outcome}
    {failing : Option FutureId} (eq : history = h ++ .notified f outcome failing :: rest)
    (ran : f ∈ starts r history) (untaken : ¬ Taken history f) :
    ∃ others, starts r h = others ++ [f] := by
  obtain ⟨g, turned⟩ := of_mem_starts ran
  have once := trace.notifies_le f
  subst eq
  -- The turn is not still to come.
  have earlier : .turned r g f ∈ h := by
    rcases List.mem_append.1 turned with before | after
    · exact before
    · obtain ⟨a, b, rfl⟩ := List.append_of_mem ((List.mem_cons.1 after).resolve_left (by simp))
      have split : h ++ .notified f outcome failing :: (a ++ .turned r g f :: b) =
          (h ++ .notified f outcome failing :: a) ++ .turned r g f :: b := by simp
      rw [split] at trace untaken
      obtain ⟨moment⟩ := trace.split
      have none := moment.notifies_zero fun taken => untaken taken.mono
      simp [Event.notifies] at none
  -- No other turn of the receiver has begun since.
  obtain ⟨a, b, rfl⟩ := List.append_of_mem earlier
  have last : starts r b = [] := by
    rw [List.eq_nil_iff_forall_not_mem]
    intro f' mem
    obtain ⟨g', turned'⟩ := of_mem_starts mem
    obtain ⟨b', c, rfl⟩ := List.append_of_mem turned'
    have between : a ++ .turned r g f :: (b' ++ .turned r g' f' :: c) ++
        .notified f outcome failing :: rest =
        a ++ .turned r g f :: b' ++ .turned r g' f' ::
          (c ++ .notified f outcome failing :: rest) := by simp
    obtain ⟨_, callback⟩ := trace.turn_after_turn between
    obtain ⟨⟨outcome', failing', notified⟩, _⟩ := callback untaken
    have twice := le_tally (n := Event.notifies f) notified
    simp only [tally_append, tally_cons, Event.notifies, one_self] at once twice
    omega
  refine ⟨starts r a, ?_⟩
  rw [starts_append, show Event.turned r g f :: b = [.turned r g f] ++ b from rfl, starts_append,
    last]
  simp [starts]

theorem notices_sublist (r : ObjectId) {h rest : List Event} (eq : history = h ++ rest) :
    (noticesOf (fun f => f ∈ starts r history ∧ ¬ Taken history f) h).Sublist (starts r h) := by
  induction h using List.reverseRecOn generalizing rest with
  | nil => exact List.Sublist.slnil
  | append_singleton h e ih =>
    have split : history = h ++ e :: rest := by rw [eq]; simp
    have earlier := ih split
    rw [starts_append, noticesOf_append]
    cases e with
    | notified f outcome failing =>
      by_cases counts : f ∈ starts r history ∧ ¬ Taken history f
      · obtain ⟨others, started⟩ := trace.starts_of_notified split counts.1 counts.2
        have single : noticesOf (fun f => f ∈ starts r history ∧ ¬ Taken history f)
            [.notified f outcome failing] = [f] := by simp [noticesOf, counts]
        have new : f ∉ noticesOf (fun f => f ∈ starts r history ∧ ¬ Taken history f) h := by
          intro mem
          obtain ⟨o, x, notified⟩ := of_mem_noticesOf mem
          have once := trace.notifies_le f
          have twice := le_tally (n := Event.notifies f) notified
          rw [split] at once
          simp only [tally_append, tally_cons, Event.notifies, one_self] at once twice
          omega
        rw [single, started]
        rw [started] at earlier
        refine ((sublist_of_append_singleton earlier new).append (List.Sublist.refl [f])).trans ?_
        exact List.sublist_append_left _ _
      · have single : noticesOf (fun f => f ∈ starts r history ∧ ¬ Taken history f)
            [.notified f outcome failing] = [] := by simp [noticesOf, counts]
        rw [single, List.append_nil]
        exact earlier.trans (List.sublist_append_left _ _)
    | _ =>
      refine (List.append_nil _).symm ▸ earlier.trans (List.sublist_append_left _ _)

/-- Units of one receiver.  They are put on its lane one by one and begin to run in that
order, and only in turns of its group.  Between two turns the unit of the first has
ended, and its callback was notified and has returned; and callbacks are notified in
the order in which the units began to run. -/
theorem serializes (r : ObjectId) :
    (appends r history).Nodup ∧ (starts r history).Sublist (appends r history) ∧
    (∀ f ∈ appends r history, ∀ e ∈ history, 0 < e.runs f → ∃ g, e = .turned r g f) ∧
    (∀ a b c g g' f f', history = a ++ .turned r g f :: b ++ .turned r g' f' :: c →
      (∃ outcome, .ended f outcome ∈ b) ∧ (¬ Taken history f →
        (∃ outcome failing, .notified f outcome failing ∈ b) ∧ .announced f ∈ b)) ∧
    (notices r history).Sublist (starts r history) := by
  refine ⟨?_, trace.starts_sublist r, ?_, ?_, ?_⟩
  · rw [List.nodup_iff_count_le_one]
    intro f
    exact Nat.le_trans (count_appends_le r f history) (trace.queues_le f)
  · intro f appended e mem runs
    exact trace.turned_of_appends appended mem runs
  · intro a b c g g' f f' eq
    exact trace.turn_after_turn eq
  · exact trace.notices_sublist r (List.append_nil history).symm

end Trace

def twoUnits : Code Unit :=
  Sample.create fun f => Sample.create fun f' =>
    Sample.schedule (.group 2) f (Sample.schedule (.group 2) f' Sample.done)

theorem serializes_twoUnits :
    appends 2 (Sample.run Sample.value twoUnits).1 = [1, 2] ∧
    starts 2 (Sample.run Sample.value twoUnits).1 = [1, 2] ∧
    ∃ a b c, (Sample.run Sample.value twoUnits).1 =
      a ++ .turned 2 0 1 :: b ++ .turned 2 0 2 :: c ∧ .announced 1 ∈ b := by
  have trace := Sample.trace_run Sample.value twoUnits
  obtain ⟨_, _, _, turns, _⟩ := trace.serializes 2
  have split : (Sample.run Sample.value twoUnits).1 =
      (Sample.run Sample.value twoUnits).1.take 24 ++ .turned 2 0 1 ::
        ((Sample.run Sample.value twoUnits).1.drop 25).take 9 ++ .turned 2 0 2 ::
          (Sample.run Sample.value twoUnits).1.drop 35 := by rfl
  have untaken : ¬ Taken (Sample.run Sample.value twoUnits).1 1 := by decide +kernel
  exact ⟨by decide +kernel, by decide +kernel, _, _, _, split,
    ((turns _ _ _ _ _ _ _ split).2 untaken).2⟩

def boundTwice : Code Unit :=
  Sample.invoke fun f => Sample.create fun a =>
    Sample.schedule (.group 2) a (Sample.schedule (.group 2) f Sample.done)

/-- The callback of a taken future need not wait for its turn: it is notified of the
call's failure, before the unit that was placed first. -/
theorem callbacks_out_of_order : ∃ (client : Client Unit) (start s : State Unit)
    (history : List Event), Trace client start history s ∧
      starts 2 history = appends 2 history ∧
      ¬ (noticesOf (fun f => f ∈ starts 2 history) history).Sublist (appends 2 history) :=
  ⟨_, _, _, _, Sample.trace_run Sample.failure boundTwice, by decide +kernel, by decide +kernel⟩

end State
end Strands
