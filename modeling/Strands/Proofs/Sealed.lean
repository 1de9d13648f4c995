/-
A runtime that is closed for good.

A shutdown has completed and no unit is running any more: `State.Over`.  Then the queue is
closed and empty, the flag is up, and no unit runs or is about to: `State.Sealed`.  Whatever
any threads do afterwards, that stays so (`Sealed.stays`), no unit begins (`Sealed.not_started`)
and no group is made, but for those that were about to be made then (`Sealed.entries`).
-/
import Strands.Proofs.GroupFree
import Strands.Proofs.LaneUnits
import Strands.Proofs.Quiesce
import Strands.Proofs.Units

namespace Strands

variable {W : Type}

def Frame.isUnit : Frame W → Bool
  | running role _ | waiting role _ => role.isTask
  | turn _ => true
  | _ => false

/-- A table has no entry but those it had, unless a group is made. -/
theorem Frame.step_table {client : Client W} {sight : Sight} {choice : Choice} {s : Shared W}
    {frame : Frame W} {p : Progress W} {receiver : ObjectId} {group : GroupId}
    (keys : (s.table.entries.map Prod.fst).Nodup)
    (taken : frame.step client sight choice s = some p)
    (there : p.shared.table.get? receiver = some group) :
    s.table.get? receiver = some group ∨ ∃ job asker, frame = .locate receiver job asker := by
  by_cases blind : frame.isBlind = true
  · have same : p.shared.table = s.table :=
      (congrArg Shared.table (Frame.step_adopt_self blind taken)).symm
    exact .inl (same ▸ there)
  cases frame with
  | running role code =>
    cases code with
    | ask request next =>
      cases request with
      | sweep =>
        cases taken
        exact .inl ((GroupTable.get?_sweep keys _).1 there).1
      | groupCount => cases taken; exact .inl there
      | _ => exact absurd rfl blind
    | await ready next =>
      simp only [step, Code.step] at taken
      split at taken <;> cases taken
      exact .inl there
    | _ => exact absurd rfl blind
  | locate sought job asker =>
    cases taken
    by_cases same : receiver = sought
    · exact .inr ⟨job, asker, same ▸ rfl⟩
    · cases found : s.table.get? sought with
      | some known =>
        simp only [locateStep, Shared.locate, found] at there
        exact .inl there
      | none =>
        simp only [locateStep, Shared.locate, found] at there
        rw [GroupTable.get?_insert (GroupTable.get?_sweepIfFull_of_none keys _ found),
          if_neg same] at there
        exact .inl (GroupTable.get?_of_sweepIfFull keys _ there)
  | push job asker =>
    cases taken
    simp only [pushStep] at there
    split at there <;> exact .inl there
  | append sought known job asker =>
    cases taken
    simp only [appendStep] at there
    split at there <;> exact .inl there
  | submit known asker =>
    cases taken
    simp only [submitStep] at there
    split at there <;> exact .inl there
  | drain known =>
    cases taken
    simp only [drainStep] at there
    split at there <;> exact .inl there
  | poll =>
    cases taken
    simp only [pollStep] at there
    split at there <;> exact .inl there
  | turn known =>
    cases taken
    simp only [turnStep] at there
    split at there <;> exact .inl there
  | endTurn known =>
    cases taken
    simp only [endTurnStep] at there
    split at there <;> exact .inl there
  | close => cases taken; exact .inl there
  | _ => exact absurd rfl blind

namespace State

def Resting (s : State W) : Prop := ∀ t ∈ s.threads, ∀ f, .unit f ∉ Frame.stakesOf t.stack

/-- A shutdown has completed and no unit is running any more. -/
inductive Over (log : List (Beat W)) (s : State W) : Prop
  /-- The shutdown has waited for all workers to end. -/
  | joined {beat : Beat W} : beat ∈ log → beat.s.acting beat.thread = some (.join []) →
      s.Resting → Over log s
  /-- The shutdown found the flag up, and nobody is to begin a turn any more. -/
  | found {beat : Beat W} : beat ∈ log → beat.s.acting beat.thread = some .shutdown →
      beat.s.shared.flag = true → s.Resting → (∀ thread, s.Turnless thread) → Over log s

/-- The runtime is closed for good. -/
structure Sealed (s : State W) : Prop where
  closed : s.shared.queue.closed = true
  empty : s.shared.queue.items = []
  flag : s.shared.flag = true
  idle : ∀ t ∈ s.threads, ∀ frame ∈ t.stack, frame.isUnit = false

variable {client : Client W} {workers : Nat} {world : W} {kept : List ObjectId}
  {threads : List (Code W)} {s s' : State W} {before later : List (Beat W)}

theorem Log.flag_stays (run : Log client s later s') (up : s.shared.flag = true) :
    s'.shared.flag = true := by
  induction run with
  | start => exact up
  | step _ taken ih =>
    obtain ⟨acted⟩ := step_cases taken
    exact flag_of_acted acted ih

theorem sealed_of_resting (trace : Trace client (State.start workers world kept threads)
    (events client before) s) (flag : s.shared.flag = true) (resting : s.Resting)
    (turnless : ∀ thread, s.Turnless thread) : s.Sealed where
  closed := trace.shut.flag flag
  empty := trace.items_of_closed (trace.shut.flag flag)
  flag := flag
  idle t mem frame inStack := by
    have none : ∀ job : Job W, .unit job.future ∉ frame.stakes := fun job own =>
      resting t mem job.future (List.mem_flatMap.2 ⟨frame, inStack, own⟩)
    cases frame with
    | running role code | waiting role next =>
      cases role with
      | task job => exact absurd (List.mem_singleton_self _) (none job)
      | _ => rfl
    | turn group =>
      obtain ⟨thread, found⟩ := List.getElem?_of_mem mem
      exact absurd inStack (turnless thread t group found)
    | _ => rfl

theorem Sealed.turnless (closed : s.Sealed) (thread : ThreadId) : s.Turnless thread := by
  intro t group found mem
  cases closed.idle t (List.mem_of_getElem? found) _ mem

theorem Sealed.resting (closed : s.Sealed) : s.Resting := by
  intro t mem f held
  obtain ⟨frame, inStack, own⟩ := List.mem_flatMap.1 held
  have idle := closed.idle t mem frame inStack
  obtain ⟨job, _, ⟨code, rfl⟩ | ⟨next, rfl⟩⟩ := Frame.holds_of_mem own <;> cases idle

/-- A shutdown that has completed has left a runtime that is closed for good, once no unit is
running any more. -/
theorem Log.sealed (run : Log client (State.start workers world kept threads) before s)
    (done : Over before s) : s.Sealed := by
  cases done with
  | @joined beat mem stands resting =>
    obtain ⟨earlier, after, rfl⟩ := List.append_of_mem mem
    obtain ⟨first, choice, next, taken, rest⟩ := run.split
    have trace := first.trace
    have up : beat.s.shared.flag = true := by
      refine trace.locked.flag fun free => ?_
      rw [(trace.locked.owner beat.thread).2 ⟨[], stands⟩] at free
      cases free
    have since : Log client beat.s (beat :: after) s := (Log.one taken).append rest
    refine sealed_of_resting run.trace (since.flag_stays up) resting fun thread => ?_
    cases first.mustered with
    | whole _ none => exact absurd stands (none _ _)
    | taken take inEarlier takes call =>
      have ended : ∀ worker < workers, worker ≠ take.thread → beat.s.isDone worker = true := by
        intro worker bound other
        refine (call.waits worker bound other).resolve_right ?_
        rintro ⟨list, stands', waiting⟩
        rw [trace.locked.alone stands stands', stands] at stands'
        cases stands'
        cases waiting
      exact (begun_of_turnless trace (trace.shut.flag up) since
        (first.turnless inEarlier takes ended thread)).2
  | @found beat mem _ up resting turnless =>
    obtain ⟨earlier, after, rfl⟩ := List.append_of_mem mem
    obtain ⟨_, _, _, taken, rest⟩ := run.split
    exact sealed_of_resting run.trace (((Log.one taken).append rest).flag_stays up) resting turnless

theorem Sealed.runs_zero (closed : s.Sealed)
    (run : Log client (State.start workers world kept threads) before s)
    (since : Log client s later s') (f : FutureId) :
    tally (Event.runs f) (events client later) = 0 := by
  by_contra some
  obtain ⟨thread, begins⟩ := mem_begun_of_runs (Nat.pos_of_ne_zero some)
  rw [(begun_of_turnless run.trace closed.closed since (closed.turnless thread)).1] at begins
  cases begins

theorem Sealed.not_started (closed : s.Sealed)
    (run : Log client (State.start workers world kept threads) before s)
    (since : Log client s later s') (job : Job W) (code : Code W) :
    .started job code ∉ deeds client later := by
  intro mem
  obtain ⟨e, inLater, tells⟩ := since.event_of_deed mem
  have runs : e.runs job.future = 1 := by
    cases tells with
    | started | turned => exact one_self _
  have some := tally_pos_of_mem inLater runs
  rw [closed.runs_zero run since] at some
  cases some

/-- A runtime that is closed for good stays so. -/
theorem Sealed.stays (closed : s.Sealed)
    (run : Log client (State.start workers world kept threads) before s)
    (since : Log client s later s') : s'.Sealed := by
  have whole := run.append since
  refine sealed_of_resting whole.trace (since.flag_stays closed.flag) (fun t mem f held => ?_)
    fun thread => (begun_of_turnless run.trace closed.closed since (closed.turnless thread)).2
  have none : weigh (Stake.runs f) s.stakes = 0 := by
    by_contra some
    obtain ⟨stake, mem, pos⟩ := weigh_pos (Nat.pos_of_ne_zero some)
    cases stake with
    | unit g =>
      obtain rfl : g = f := one_pos pos
      rcases List.mem_append.1 mem with inThreads | shared
      · obtain ⟨t, inThreads, held⟩ := List.mem_flatMap.1 inThreads
        exact closed.resting t inThreads g held
      · cases Shared.not_personal shared
    | _ => cases pos
  have held' : 0 < weigh (Stake.runs f) s'.stakes :=
    weigh_pos_of_mem (List.mem_append_left _ (List.mem_flatMap.2 ⟨t, mem, held⟩)) (one_self f)
  have law := run.trace.unit_law f
  have law' := whole.trace.unit_law f
  rw [events_append, tally_append, tally_append, closed.runs_zero run since] at law'
  omega

/-! ## Groups -/

/-- A thread is about to find the group of a receiver, or to make it. -/
def Seeks (s : State W) (receiver : ObjectId) : Prop :=
  ∃ t ∈ s.threads, ∃ job asker, .locate receiver job asker ∈ t.stack

theorem seeks_step {thread : ThreadId} {choice : Choice} {receiver : ObjectId}
    (closed : s.shared.queue.closed = true) (taken : s.step client thread choice = some s')
    (seeks : s'.Seeks receiver) : s.Seeks receiver := by
  obtain ⟨t, mem, job, asker, inStack⟩ := seeks
  obtain ⟨acted⟩ := step_cases taken
  rcases acted.frame_cases mem inStack with new | other | ⟨code, _, spawned⟩
  · have move := acted.move
    generalize acted.progress = p at move new
    generalize acted.top = top at move
    cases move with
    | receive | pass => cases List.mem_singleton.1 new
    | act moved => cases Frame.step_unlocated closed moved _ new
  · obtain ⟨t, mem, inStack⟩ := acted.of_mem_others other
    exact ⟨t, mem, job, asker, inStack⟩
  · cases spawned

/-- A group is in the table only if it was there, or if somebody is about to find it. -/
theorem entry_step {thread : ThreadId} {choice : Choice} {receiver : ObjectId} {group : GroupId}
    (keys : (s.shared.table.entries.map Prod.fst).Nodup)
    (taken : s.step client thread choice = some s')
    (there : s'.shared.table.get? receiver = some group) :
    s.shared.table.get? receiver = some group ∨ s.Seeks receiver := by
  obtain ⟨acted⟩ := step_cases taken
  have move := acted.move
  have stack := acted.stack
  rw [acted.shared'] at there
  generalize acted.progress = p at move there
  generalize acted.top = top at move stack
  cases move with
  | receive reply role next => cases reply <;> exact .inl there
  | pass => exact .inl there
  | act moved =>
    refine (Frame.step_table keys moved there).imp_right ?_
    rintro ⟨job, asker, rfl⟩
    refine ⟨acted.actor, acted.actor_mem, job, asker, ?_⟩
    rw [stack]
    exact List.mem_cons_self

/-- Whatever is done from then on, no group is made, but for those that were about to be. -/
theorem Sealed.entries (closed : s.Sealed)
    (run : Log client (State.start workers world kept threads) before s)
    (since : Log client s later s') {receiver : ObjectId} {group : GroupId}
    (there : s'.shared.table.get? receiver = some group) :
    s.shared.table.get? receiver = some group ∨ s.Seeks receiver := by
  suffices (s'.Seeks receiver → s.Seeks receiver) ∧
      (s'.shared.table.get? receiver = some group →
        s.shared.table.get? receiver = some group ∨ s.Seeks receiver) from this.2 there
  clear there
  induction since with
  | start => exact ⟨id, .inl⟩
  | step since taken ih =>
    have middle := closed.stays run since
    refine ⟨fun seeks => ih.1 (seeks_step middle.closed taken seeks), fun there => ?_⟩
    have keys := (run.append since).trace.lanes.keys
    exact (entry_step keys taken there).elim ih.2 fun seeks => .inr (ih.1 seeks)

end State
end Strands
