/-
Run or refused.

`Log.run_or_refused`: along every run, whoever shuts the scheduler down and whenever, no
unit runs twice, and none is both run and refused.  While no work is in flight every unit
that was counted has run and ended, or was refused and never will run, its future having
failed with the refusal.  Once the queue is closed a thread begins at most one more unit,
the first of a group that it had popped before; all other units that had not begun are
refused, wherever they were.

After the close nothing is taken from the queue, and a group that was popped before stays
with whoever popped it, its lane growing at the back only: `Afterwards`.
-/
import Strands.Proofs.Backing
import Strands.Proofs.Beat
import Strands.Proofs.Sheltered

namespace Strands

variable {W : Type}

def Event.begun? : Event → Option FutureId
  | started f | turned _ _ f => some f
  | _ => none

def begun (client : Client W) (thread : ThreadId) (log : List (Beat W)) : List FutureId :=
  log.filterMap fun beat => if beat.thread = thread then (beat.event client).begun? else none

theorem begun_append (client : Client W) (thread : ThreadId) (a b : List (Beat W)) :
    begun client thread (a ++ b) = begun client thread a ++ begun client thread b :=
  List.filterMap_append

theorem begun_own (client : Client W) (s : State W) (thread : ThreadId) :
    begun client thread [⟨s, thread⟩] = (s.event client thread).begun?.toList := by
  cases eq : (s.event client thread).begun? <;> simp [begun, Beat.event, eq]

theorem begun_other (client : Client W) (s : State W) {thread other : ThreadId}
    (different : thread ≠ other) : begun client other [⟨s, thread⟩] = [] := by
  simp [begun, different]

/-- A thread has popped a group and is to begin its turn, and the unit is the first of the
group's lane. -/
def InHand (s : State W) (thread : ThreadId) (f : FutureId) : Prop :=
  ∃ t group g, s.threads[thread]? = some t ∧ .turn group ∈ t.stack ∧
    s.shared.groups[group]? = some g ∧ (g.jobs.map Job.future).head? = some f

theorem mem_begun_of_runs {client : Client W} {log : List (Beat W)} {f : FutureId}
    (runs : 0 < tally (Event.runs f) (events client log)) : ∃ thread, f ∈ begun client thread log := by
  obtain ⟨e, mem, pos⟩ := tally_pos runs
  obtain ⟨beat, among, rfl⟩ := List.mem_map.1 mem
  refine ⟨beat.thread, List.mem_filterMap.2 ⟨beat, among, ?_⟩⟩
  rw [if_pos rfl]
  cases eq : beat.event client with
  | started g | turned receiver group g =>
    rw [eq] at pos
    rw [Event.begun?, one_pos pos]
  | _ =>
    rw [eq] at pos
    cases pos

theorem ran_iff {history : List Event} {f : FutureId} :
    Ran history f ↔ 0 < tally (Event.runs f) history := by
  constructor
  · rintro (mem | ⟨receiver, group, mem⟩)
    · exact tally_pos_of_mem mem (one_self f)
    · exact tally_pos_of_mem mem (one_self f)
  · intro h
    obtain ⟨e, mem, pos⟩ := tally_pos h
    cases e with
    | started g => exact .inl (one_pos pos ▸ mem)
    | turned receiver group g => exact .inr ⟨receiver, group, one_pos pos ▸ mem⟩
    | _ => cases pos

namespace State

variable {client : Client W} {workers : Nat} {world : W} {kept : List ObjectId}
  {threads : List (Code W)} {s : State W} {history : List Event} {log : List (Beat W)}

/-! ## Groups that were popped -/

theorem due_of_turn {thread : ThreadId} {t : Thread W} {group : GroupId}
    (found : s.threads[thread]? = some t) (mem : .turn group ∈ t.stack) : group ∈ s.dues :=
  List.mem_append_left _ (List.mem_flatMap.2 ⟨t, List.mem_of_getElem? found,
    List.mem_filterMap.2 ⟨_, mem, rfl⟩⟩)

/-- Who is to begin a turn was to do so before, or has just popped the group. -/
theorem turn_of_acted {s' : State W} {thread other : ThreadId} {choice : Choice}
    (acted : Acted client s s' thread choice) {t : Thread W} {group : GroupId}
    (found : s'.threads[other]? = some t) (mem : .turn group ∈ t.stack) :
    (∃ t', s.threads[other]? = some t' ∧ .turn group ∈ t'.stack ∧
      (other = thread → .turn group ∈ acted.below)) ∨
    acted.top = [.poll] ∧ ∃ queue, s.shared.queue.pop = some (.group group, queue) := by
  by_cases same : other = thread
  · subst same
    rw [acted.actor_eq'] at found
    cases found
    have stays : .turn group ∈ acted.below → ∃ t', s.threads[other]? = some t' ∧
        .turn group ∈ t'.stack ∧ (other = other → .turn group ∈ acted.below) := fun below =>
      ⟨acted.actor, acted.actor_eq, by rw [acted.stack]; exact List.mem_append_right _ below,
        fun _ => below⟩
    rcases List.mem_append.1 mem with new | below
    · cases acted.move.feeds with
      | keep _ none | push _ _ _ _ none | submit _ _ _ _ none | start _ _ _ none
      | close _ _ none => exact absurd new (not_turn_of_dues none group)
      | fetch popped top pop frames =>
        rw [frames] at new
        obtain rfl : group = popped := by simpa using new
        exact .inr ⟨top, _, pop⟩
      | send _ _ _ _ _ frames =>
        rw [frames] at new
        simp at new
    · exact .inl (stays below)
  · rcases acted.other_eq same found with earlier | ⟨code, _, rfl⟩
    · exact .inl ⟨t, earlier, mem, fun eq => absurd eq same⟩
    · simp [clientThread] at mem

/-! ## After the queue is closed -/

/-- What is known of a state to which a log leads from another one, the queue being closed
all the while. -/
structure Afterwards (client : Client W) (first : State W) (log : List (Beat W)) (s : State W) :
    Prop where
  closed : s.shared.queue.closed = true
  /-- A group that is to begin its turn was popped before, and its lane grew at its back. -/
  turn : ∀ thread t group, s.threads[thread]? = some t → .turn group ∈ t.stack →
    (∃ t', first.threads[thread]? = some t' ∧ .turn group ∈ t'.stack) ∧
    begun client thread log = [] ∧
    ∃ g g', first.shared.groups[group]? = some g ∧ s.shared.groups[group]? = some g' ∧
      g.jobs <+: g'.jobs
  begun : ∀ thread, begun client thread log = [] ∨
    ∃ f, InHand first thread f ∧ begun client thread log = [f]

theorem afterwards_close {before : List Event} {futures : List FutureId}
    (moment : Moment client (State.start workers world kept threads) before (.closed futures)) :
    Afterwards client moment.s [] moment.s' where
  closed := by rw [moment.accounts.closed]; rfl
  turn thread t group found mem := by
    obtain ⟨acted⟩ := step_cases moment.taken
    obtain ⟨t', found', mem', _⟩ | ⟨top, _⟩ := turn_of_acted acted found mem
    · obtain ⟨g, own, _⟩ := moment.trace.laden group (due_of_turn found' mem')
      obtain ⟨g', own', longer⟩ := moment.grows_of_due (due_of_turn found mem) own
      exact ⟨⟨t', found', mem'⟩, rfl, g, g', own, own', longer⟩
    · -- Who pops a group does not close the queue.
      have event := acted.event
      rw [moment.event, top, Move.event, Frame.event] at event
      split at event <;> cases event
  begun _ := .inl rfl

/-- Once the queue is closed, a unit only begins in the turn of a group. -/
theorem Trace.turned_of_begun
    (trace : Trace client (State.start workers world kept threads) history s)
    (closed : s.shared.queue.closed = true) {s' : State W} {thread : ThreadId} {choice : Choice}
    (taken : s.step client thread choice = some s') {f : FutureId}
    (begins : (s.event client thread).begun? = some f) :
    ∃ r group, s.event client thread = .turned r group f := by
  have lines := step_lines taken
  cases event : s.event client thread with
  | started g =>
    rw [event] at lines
    have none : s.shared.line = [] := by
      rw [Shared.line, trace.items_of_closed closed]
      rfl
    rw [show s.shared.line = _ from lines] at none
    cases none
  | turned r group g =>
    rw [event] at begins
    cases begins
    exact ⟨r, group, rfl⟩
  | _ =>
    rw [event] at begins
    cases begins

theorem turned_of_begun {first : State W}
    (trace : Trace client (State.start workers world kept threads) history s)
    (afterwards : Afterwards client first log s) {s' : State W} {thread : ThreadId}
    {choice : Choice} (taken : s.step client thread choice = some s')
    (acted : Acted client s s' thread choice) {f : FutureId}
    (begins : (s.event client thread).begun? = some f) :
    ∃ r group above, s.event client thread = .turned r group f ∧
      acted.top = .turn group :: above := by
  obtain ⟨r, group, event⟩ := trace.turned_of_begun afterwards.closed taken begins
  obtain ⟨above, top⟩ := trace.top_of_turned acted event
  exact ⟨r, group, above, event, top⟩

/-- A unit that begins after the close was then in the hands of who begins it, and is the
first to begin there since. -/
theorem inHand_of_begun {first : State W}
    (laden : ∀ group ∈ first.dues, ∃ g, first.shared.groups[group]? = some g ∧ g.jobs ≠ [])
    (trace : Trace client (State.start workers world kept threads) history s)
    (afterwards : Afterwards client first log s) {s' : State W} {thread : ThreadId}
    {choice : Choice} (taken : s.step client thread choice = some s')
    (acted : Acted client s s' thread choice) {f : FutureId}
    (begins : (s.event client thread).begun? = some f) :
    InHand first thread f ∧ begun client thread log = [] := by
  obtain ⟨r, group, above, event, top⟩ := turned_of_begun trace afterwards taken acted begins
  have mem : .turn group ∈ acted.actor.stack := by
    rw [acted.stack, top]
    exact List.mem_cons_self
  obtain ⟨⟨t, found, popped⟩, none, g, g', own, own', longer⟩ :=
    afterwards.turn thread _ group acted.actor_eq mem
  have shifts := (step_shift taken).1
  rw [event] at shifts
  obtain ⟨_, g'', job, rest, own'', _, jobs, rfl, _⟩ := shifts
  rw [own'] at own''
  cases own''
  obtain ⟨_, own'', waiting⟩ := laden group (due_of_turn found popped)
  rw [own] at own''
  cases own''
  refine ⟨⟨t, group, g, found, popped, own, ?_⟩, none⟩
  -- What was first in the lane at the close is still first.
  obtain ⟨new, eq⟩ := longer
  obtain ⟨front, others, cons⟩ := List.exists_cons_of_ne_nil waiting
  rw [cons, jobs] at eq
  obtain ⟨rfl, _⟩ := List.cons.inj eq
  simp [cons]

theorem afterwards_step {first : State W}
    (laden : ∀ group ∈ first.dues, ∃ g, first.shared.groups[group]? = some g ∧ g.jobs ≠ [])
    (trace : Trace client (State.start workers world kept threads) history s)
    (afterwards : Afterwards client first log s) {s' : State W} {thread : ThreadId}
    {choice : Choice} (taken : s.step client thread choice = some s') :
    Afterwards client first (log ++ [⟨s, thread⟩]) s' := by
  obtain ⟨acted⟩ := step_cases taken
  refine ⟨?_, fun other t group found mem => ?_, fun other => ?_⟩
  · rw [(step_accounts taken).closed, afterwards.closed]
    cases s.event client thread <;> rfl
  · obtain ⟨t', found', mem', stays⟩ | ⟨_, queue, pop⟩ := turn_of_acted acted found mem
    · obtain ⟨popped, none, g, g', own, own', longer⟩ := afterwards.turn other t' group found' mem'
      obtain ⟨g'', own'', longer'⟩ := Moment.grows_of_due
        ⟨s, s', thread, choice, trace, taken, rfl⟩ (due_of_turn found mem) own'
      refine ⟨popped, ?_, g, g'', own, own'', longer.trans longer'⟩
      rw [begun_append, none, List.nil_append]
      by_cases same : other = thread
      · subst same
        rw [begun_own, Option.toList_eq_nil_iff]
        -- Another turn would begin with a turn beneath it.
        by_contra some
        obtain ⟨f, eq⟩ := Option.ne_none_iff_exists'.1 some
        obtain ⟨r, turning, above, _, top⟩ := turned_of_begun trace afterwards taken acted eq
        have stacked := trace.turn_innermost acted.actor acted.actor_mem
        rw [acted.stack, top, List.cons_append] at stacked
        exact stacked.1 group (List.mem_append_right _ (stays rfl))
      · exact begun_other client s (Ne.symm same)
    · have items := RunQueue.items_of_pop pop
      rw [trace.items_of_closed afterwards.closed] at items
      cases items
  · rw [begun_append]
    by_cases same : other = thread
    · subst same
      rw [begun_own]
      cases eq : (s.event client other).begun? with
      | none =>
        simpa using afterwards.begun other
      | some f =>
        obtain ⟨inHand, none⟩ := inHand_of_begun laden trace afterwards taken acted eq
        rw [none]
        exact .inr ⟨f, inHand, rfl⟩
    · rw [begun_other client s (Ne.symm same), List.append_nil]
      exact afterwards.begun other

namespace Trace

/-- While no work is in flight, a unit that was counted has run and ended, unless it was
refused. -/
theorem ended_of_counted
    (trace : Trace client (State.start workers world kept threads) history s)
    (idle : s.shared.inFlight = 0) {f : FutureId} {byClient : Bool}
    (counted : .counted f byClient ∈ history) (calm : ¬ Refused history f) :
    Ran history f ∧ ∃ outcome, .ended f outcome ∈ history := by
  have counts := tally_pos_of_mem (n := Event.counts f) counted (one_self f)
  have hand := trace.hand_law f
  have job := trace.job_law f
  have unit := trace.unit_law f
  have hands := trace.weigh_of_share idle (w := Stake.hands f) fun stake => by
    cases stake <;> simp [Stake.hands, Stake.share, one_le]
  have queues := trace.weigh_of_share idle (w := Stake.queues f) fun stake => by
    cases stake <;> simp [Stake.queues, Stake.share, one_le]
  have units := trace.weigh_of_share idle (w := Stake.runs f) fun stake => by
    cases stake <;> simp [Stake.runs, Stake.share, one_le]
  rw [refused_iff] at calm
  rw [tally_add] at hand job
  have ends : 0 < tally (Event.ends f) history := by omega
  refine ⟨ran_iff.2 (by omega), ?_⟩
  obtain ⟨e, mem, pos⟩ := tally_pos ends
  obtain ⟨outcome, rfl⟩ := Event.of_ends pos
  exact ⟨outcome, mem⟩

end Trace

namespace Log

theorem afterwards {before after : List (Beat W)} {beat : Beat W}
    (run : Log client (State.start workers world kept threads) (before ++ beat :: after) s)
    {futures : List FutureId} (closing : beat.event client = .closed futures) :
    Afterwards client beat.s after s := by
  obtain ⟨earlier, choice, first, taken, later⟩ := run.split
  clear run
  induction later with
  | start =>
    exact afterwards_close
      ⟨beat.s, first, beat.thread, choice, earlier.trace, taken, closing⟩
  | step between next ih =>
    exact afterwards_step earlier.trace.laden ((earlier.step taken).append between).trace ih next

end Log

end State
end Strands
