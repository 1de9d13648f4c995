/-
What a returned shutdown means.

A shutdown on a thread that is no worker returns in one of two ways.  If it finds the flag
down it waits for work in flight to end, refuses what is left, takes its turn at the list of
workers and returns when everybody on it has ended.  What is in flight then is in the hands
of other threads, `Quiescent`, and no unit begins any more.  The list is whole for one
thread only, though.  If that was a worker that shut the scheduler down itself, this worker
is still at its unit.  If the shutdown finds the flag up it returns at once, and all that is
known is that the queue is closed.  `Log.quiesces` says both.
-/
import Strands.Proofs.Closing
import Strands.Proofs.Replay
import Strands.Proofs.Shutting
import Strands.Proofs.Tokens

namespace Strands

variable {W : Type}

/-- What is held for work in flight, or for a future that work in flight waits for. -/
def Stake.isWork : Stake → Bool
  | attempt _ byClient => !byClient
  | bound _ _ | hand _ | job _ | unit _ | guard | settle _ | token _ | call _ => true
  | _ => false

/-- What is held for a unit from its being counted until the callback has returned. -/
def Stake.course (f : FutureId) (stake : Stake) : Nat := stake.work f + stake.announces f

/-- A callback that is still to be notified holds a handle of the scheduler at most, and the
call that it completes an argument for. -/
theorem Future.mem_stakes {u : Future W} {stake : Stake} (held : stake ∈ u.stakes) :
    stake = .handle ∨ ∃ call, u.callback.bind Callback.call? = some call ∧ stake = .call call := by
  unfold Future.stakes at held
  cases callback : u.callback with
  | none => simp [callback] at held
  | some c =>
    cases c with
    | silent | client notify => simp [callback] at held
    | argument r =>
      simp only [callback, Option.map_some, Option.getD_some, Callback.stakes, Resolution.stakes,
        List.mem_cons] at held
      rcases held with rfl | held
      · exact .inl rfl
      · obtain ⟨call, own, rfl⟩ := Next.mem_stakes held
        exact .inr ⟨call, own, rfl⟩

def Frame.isPastIdle : Frame W → Bool
  | close | lockCrew | join _ => true
  | _ => false

namespace State

/-- A thread has work in its hands. -/
def HasWork (s : State W) (thread : ThreadId) : Prop :=
  ∃ t, s.threads[thread]? = some t ∧ ∃ stake ∈ Frame.stakesOf t.stack, stake.isWork = true

/-- A thread has a future's unit in its hands, or the group on whose lane the unit waits. -/
def Handles (s : State W) (thread : ThreadId) (f : FutureId) : Prop :=
  ∃ t, s.threads[thread]? = some t ∧
    ((∃ stake ∈ Frame.stakesOf t.stack, 0 < stake.course f) ∨
      ∃ group g, .token group ∈ Frame.stakesOf t.stack ∧ s.shared.groups[group]? = some g ∧
        f ∈ g.jobs.map Job.future)

/-- All workers but one thread have ended.  What is in flight is in the hands of that thread
or of threads that are no workers, a certain one aside, and so is every unit that was
counted and is not complete. -/
structure Quiescent (workers : Nat) (history : List Event) (s : State W)
    (thread taker : ThreadId) : Prop where
  ended : ∀ worker < workers, worker ≠ taker → s.isDone worker = true
  units : ∀ k t f, s.threads[k]? = some t → .unit f ∈ Frame.stakesOf t.stack → k = taker
  flight : s.shared.inFlight ≠ 0 →
    ∃ k, k ≠ thread ∧ (workers ≤ k ∨ k = taker) ∧ HasWork s k
  complete : ∀ f byClient, .counted f byClient ∈ history →
    (∃ outcome, Completed history s f outcome) ∨
      ∃ k, k ≠ thread ∧ (workers ≤ k ∨ k = taker) ∧ Handles s k f

variable {client : Client W} {workers : Nat} {world : W} {kept : List ObjectId}
  {threads : List (Code W)} {s s' : State W} {history : List Event} {log : List (Beat W)}

/-! ## Where work is, once the queue is closed -/

namespace Trace

section

variable (trace : Trace client (State.start workers world kept threads) history s)

include trace

theorem token_of_job (closed : s.shared.queue.closed = true) {group : GroupId} {g : Group W}
    (found : s.shared.groups[group]? = some g) (waits : g.jobs ≠ []) :
    ∃ t ∈ s.threads, .token group ∈ Frame.stakesOf t.stack := by
  have lanes := trace.lanes
  have taken : s.shared.isTaken group = true := by
    cases own : g.taken with
    | true => simp [Shared.isTaken, found, own]
    | false => exact absurd (lanes.free group g found own) waits
  have token := lanes.token group
  rw [taken, State.stakes, weigh_append, Shared.weigh_tokens, trace.items_of_closed closed] at token
  have some : 0 < weigh (Stake.tokens group) (Thread.stakesOf s.threads) := by
    simpa using Nat.lt_of_lt_of_eq Nat.one_pos token.symm
  obtain ⟨stake, mem, pos⟩ := weigh_pos some
  obtain ⟨t, inThreads, held⟩ := List.mem_flatMap.1 mem
  cases stake with
  | token other =>
    obtain rfl : other = group := one_pos pos
    exact ⟨t, inThreads, held⟩
  | _ => cases pos

theorem whereabouts (closed : s.shared.queue.closed = true) {stake : Stake}
    (held : stake ∈ s.stakes) :
    (∃ t ∈ s.threads, stake ∈ Frame.stakesOf t.stack) ∨
    (∃ f, stake = .job f ∧ ∃ t ∈ s.threads, ∃ group g, .token group ∈ Frame.stakesOf t.stack ∧
      s.shared.groups[group]? = some g ∧ f ∈ g.jobs.map Job.future) ∨
    stake = .handle ∨ ∃ d u call, s.shared.futures.get? d = some u ∧
      u.callback.bind Callback.call? = some call ∧ stake = .call call := by
  rcases List.mem_append.1 held with frames | shared
  · obtain ⟨t, mem, held⟩ := List.mem_flatMap.1 frames
    exact .inl ⟨t, mem, held⟩
  · right
    unfold Shared.stakes at shared
    rw [trace.items_of_closed closed] at shared
    simp only [List.map_nil, List.nil_append, List.mem_append, List.mem_flatMap] at shared
    rcases shared with ⟨g, inGroups, waits⟩ | ⟨u, inFutures, held⟩
    · obtain ⟨job, inJobs, rfl⟩ := List.mem_map.1 waits
      obtain ⟨group, found⟩ := List.getElem?_of_mem inGroups
      obtain ⟨t, mem, token⟩ := trace.token_of_job closed found (List.ne_nil_of_mem inJobs)
      exact .inl ⟨job.future, rfl, t, mem, group, g, token, found,
        List.mem_map.2 ⟨job, inJobs, rfl⟩⟩
    · obtain ⟨n, found⟩ := List.getElem?_of_mem inFutures
      rcases u.mem_stakes held with rfl | ⟨call, own, rfl⟩
      · exact .inr (.inl rfl)
      · exact .inr (.inr ⟨n + 1, u, call, found, own, rfl⟩)

/-- The future of an argument that a call waits for is being completed. -/
theorem work_of_argument {d : FutureId} {u : Future W} {call : FutureId}
    (found : s.shared.futures.get? d = some u) (own : u.callback.bind Callback.call? = some call) :
    ∃ stake ∈ s.stakes, stake.isWork = true ∧ ∀ call, stake ≠ .call call := by
  obtain ⟨pending, argument⟩ := (trace.recorded.argument d u call found).1 own
  have never : tally (Event.notifies d) history = 0 := by
    rw [tally_notifies, trace.recorded.outcomes, found, Option.bind_some, pending]
    rfl
  have begins := tally_pos_of_mem (n := Event.begins d) argument (one_self d)
  obtain ⟨stake, mem, pos⟩ := weigh_pos (trace.under_way never (.inl begins))
  have unopened : tally (Event.opens d) history = 0 := by
    by_contra opens
    obtain ⟨e, mem, opens⟩ := tally_pos (Nat.pos_of_ne_zero opens)
    obtain ⟨fault, behalf, rfl⟩ := Event.of_opens opens
    cases trace.eq_of_births d argument mem (one_self d) (one_self d)
  have law := trace.call_law d
  have waits : weigh (Stake.waits d) s.stakes = 0 := by omega
  cases stake with
  | opening g | call g =>
    obtain rfl : g = d := one_pos (by simpa [Stake.chain, Stake.work] using pos)
    have held := weigh_pos_of_mem (w := Stake.waits g) mem (one_self g)
    omega
  | attempt g byClient =>
    cases byClient with
    | true => simp [Stake.chain, Stake.work] at pos
    | false => exact ⟨_, mem, rfl, fun _ eq => by cases eq⟩
  | bound g byClient | hand g | job g | unit g | settle g =>
    exact ⟨_, mem, rfl, fun _ eq => by cases eq⟩
  | _ => simp [Stake.chain, Stake.work] at pos

theorem hasWork_of_busy (closed : s.shared.queue.closed = true) (busy : s.shared.inFlight ≠ 0) :
    ∃ t ∈ s.threads, ∃ stake ∈ Frame.stakesOf t.stack, stake.isWork = true := by
  have law := trace.share_law
  have shares : 0 < weigh Stake.share s.stakes := by omega
  obtain ⟨stake, held, share⟩ := weigh_pos shares
  have direct {stake : Stake} (held : stake ∈ s.stakes) (work : stake.isWork = true)
      (aside : ∀ call, stake ≠ .call call) :
      ∃ t ∈ s.threads, ∃ stake ∈ Frame.stakesOf t.stack, stake.isWork = true := by
    rcases trace.whereabouts closed held with ⟨t, mem, held⟩ |
      ⟨f, rfl, t, mem, group, g, token, _⟩ | rfl | ⟨_, _, call, _, _, rfl⟩
    · exact ⟨t, mem, stake, held, work⟩
    · exact ⟨t, mem, _, token, rfl⟩
    · cases work
    · exact absurd rfl (aside call)
  have work : stake.isWork = true := by cases stake <;> first | rfl | cases share
  rcases trace.whereabouts closed held with ⟨t, mem, held⟩ | ⟨f, rfl, _⟩ | rfl |
    ⟨d, u, call, found, own, rfl⟩
  · exact ⟨t, mem, stake, held, work⟩
  · exact direct held rfl fun _ eq => by cases eq
  · cases share
  · obtain ⟨stake, held, work, aside⟩ := trace.work_of_argument found own
    exact direct held work aside

theorem completed_of_course {f : FutureId} {byClient : Bool}
    (counted : .counted f byClient ∈ history) (none : weigh (Stake.course f) s.stakes = 0) :
    ∃ outcome, Completed history s f outcome := by
  rw [show Stake.course f = fun stake => stake.work f + stake.announces f from rfl,
    weigh_add] at none
  obtain ⟨work, announces⟩ := Nat.add_eq_zero_iff.1 none
  exact trace.completed_of_workless counted work announces

theorem handled_of_counted (closed : s.shared.queue.closed = true) {f : FutureId}
    {byClient : Bool} (counted : .counted f byClient ∈ history) :
    (∃ outcome, Completed history s f outcome) ∨ ∃ thread, Handles s thread f := by
  by_cases none : weigh (Stake.course f) s.stakes = 0
  · exact .inl (trace.completed_of_course counted none)
  · right
    obtain ⟨stake, held, pos⟩ := weigh_pos (Nat.pos_of_ne_zero none)
    rcases trace.whereabouts closed held with ⟨t, mem, held⟩ |
      ⟨g, rfl, t, mem, group, lane, token, found, waits⟩ | rfl | ⟨_, _, call, _, _, rfl⟩
    · obtain ⟨thread, found⟩ := List.getElem?_of_mem mem
      exact ⟨thread, t, found, .inl ⟨stake, held, pos⟩⟩
    · obtain rfl : g = f := one_pos pos
      obtain ⟨thread, own⟩ := List.getElem?_of_mem mem
      exact ⟨thread, t, own, .inr ⟨group, lane, token, found, waits⟩⟩
    · cases pos
    · cases pos

end

end Trace

/-! ## The thread that returns -/

def PastIdle (worker : Bool) (below : List (Frame W)) (frame : Frame W) : Prop :=
  worker = false → frame.isPastIdle = true → ¬ Guarded below

theorem pastIdle_of_not {worker : Bool} {below : List (Frame W)} {frame : Frame W}
    (not : frame.isPastIdle = false) : PastIdle worker below frame := fun _ past => by
  rw [not] at past
  cases past

theorem pastIdle_append {worker : Bool} {frames below : List (Frame W)}
    (none : ∀ frame ∈ frames, frame.isPastIdle = false) (rest : Stacked (PastIdle worker) below) :
    Stacked (PastIdle worker) (frames ++ below) := by
  induction frames with
  | nil => exact rest
  | cons frame others ih =>
    obtain ⟨here, others'⟩ := List.forall_mem_cons.1 none
    exact ⟨pastIdle_of_not here, ih others'⟩

theorem pastIdle_of_unshutting {frames : List (Frame W)} (none : Unshutting frames) :
    ∀ frame ∈ frames, frame.isPastIdle = false := by
  intro frame mem
  have apart := none frame mem
  cases frame <;> first | rfl | cases apart

namespace Trace

section

variable (trace : Trace client (State.start workers world kept threads) history s)

include trace

theorem pastIdle : ∀ t ∈ s.threads, Stacked (PastIdle t.worker) t.stack := by
  refine trace.keeps (fun _ s => ∀ t ∈ s.threads, Stacked (PastIdle t.worker) t.stack)
    (stacked_start_staff (pastIdle_of_not rfl) fun _ _ => pastIdle_of_not rfl) ?_
  intro before e moment ih
  obtain ⟨acted⟩ := step_cases moment.taken
  refine stacked_step_staff acted ih (fun _ _ _ past => past) (fun stacked rest => ?_)
    fun _ _ => pastIdle_of_not rfl
  have stays {frame next : Frame W} (top : acted.top = [frame]) (past : frame.isPastIdle = true) :
      PastIdle acted.actor.worker acted.below next := fun outside _ => by
    rw [top] at stacked
    exact stacked.1 outside past
  cases acted.move.shuts with
  | keep _ _ aloof => exact pastIdle_append (pastIdle_of_unshutting aloof.frames) rest
  | skip _ _ p | raise _ p | unlock _ p => rw [p]; exact rest
  | ring _ _ _ none => rw [none]; exact rest
  | begin _ _ p =>
    rw [p]
    cases staff : acted.actor.worker with
    | true =>
      refine ⟨fun outside => ?_, staff ▸ rest⟩
      cases outside
    | false => exact ⟨pastIdle_of_not rfl, staff ▸ rest⟩
  | idle top idle p =>
    rw [p]
    refine ⟨fun _ _ => ?_, rest⟩
    have grounded := moment.trace.grounded acted.actor acted.actor_mem
    rw [acted.stack, top] at grounded
    let place : Place before moment.s .awaitIdle :=
      ⟨acted.actor, [], acted.below, acted.actor_mem, by rw [acted.stack, top]; rfl,
        grounded.1, grounded.2⟩
    exact moment.trace.not_guarded idle place
  | close top p =>
    rw [p, closeStep, List.append_assoc]
    exact pastIdle_append (pastIdle_of_unshutting (Item.unshutting_refuse_all _))
      ⟨pastIdle_of_not rfl, pastIdle_of_not rfl, stays top rfl, rest⟩
  | lock top _ p | wait _ _ top _ p =>
    rw [p]
    exact ⟨stays top rfl, rest⟩

/-- A thread that is no worker and has waited for all workers has no work in its hands. -/
theorem not_isWork_of_joined {t : Thread W} (mem : t ∈ s.threads) (outside : t.worker = false)
    {list : List ThreadId} {below : List (Frame W)} (stack : t.stack = .join list :: below) :
    ¬ Guarded below ∧ ∀ stake ∈ Frame.stakesOf t.stack, stake.isWork = false := by
  have unguarded : ¬ Guarded below := by
    have stacked := trace.pastIdle t mem
    rw [stack] at stacked
    exact stacked.1 outside rfl
  refine ⟨unguarded, fun stake held => ?_⟩
  rw [stack] at held
  obtain ⟨frame, lower, own⟩ := List.mem_flatMap.1 (show stake ∈ Frame.stakesOf below from held)
  have seated := trace.seated t mem
  rw [stack] at seated
  have stack' : t.stack = .join list :: [] ++ below := stack
  have patient := trace.patient mem stack' frame lower
  have whole : Stacked (Frame.Seated t.worker) (.join list :: below ++ []) := by
    rwa [List.append_nil]
  have kept := not_deferred_of_unguarded whole rfl unguarded frame lower
  have suits : frame.suits false = true := by
    obtain ⟨_, _, _, seat, _⟩ := seated.2.find lower
    exact outside ▸ seat.suits
  have free : stake.share = 0 := by
    by_contra share
    exact unguarded (guarded_of_mem lower own (Nat.pos_of_ne_zero share))
  cases frame with
  | waiting role next =>
    cases role with
    | task job => cases suits
    | query object site =>
      rcases Site.mem_stakes own with ⟨call, rfl, rfl⟩ | ⟨f, rfl⟩
      · rfl
      · cases free
    | _ => cases own
  | deliver reply =>
    cases reply with
    | future f => rw [List.mem_singleton.1 own]; rfl
    | _ => cases own
  | announce f | dropHandle => rw [List.mem_singleton.1 own]; rfl
  | leave | discard job => rw [List.mem_singleton.1 own] at free; cases free
  | endTurn group => cases suits
  | settle f outcome | drain group => cases kept
  | letGo held | poll | raiseFlag | ringAll | lockCrew | askListeners stopping => cases own
  | _ => cases patient

theorem not_announce_of_unguarded {f : FutureId} {byClient : Bool}
    (counted : .counted f byClient ∈ history) (place : Place history s (.announce f))
    (unguarded : ¬ Guarded place.below) : False := by
  by_cases taken : Taken history f
  · have handed := trace.hands_of_takes f (taken_iff.1 taken).2
    rcases place.grounded.2 with guarded | replied
    · exact unguarded guarded
    · exact trace.not_awaited_of_handed handed (place.awaited replied)
  · rcases trace.backed_of_place place with guarded | ⟨outcome, failed⟩
    · exact unguarded guarded
    · exact trace.not_failed_of_claims taken (trace.claims_of_counted counted) failed

/-- A thread that is no worker and has waited for all workers has no unit in its hands that
was counted. -/
theorem not_handles_of_joined {f : FutureId} {byClient : Bool}
    (counted : .counted f byClient ∈ history) {thread : ThreadId} {t : Thread W}
    (found : s.threads[thread]? = some t) (outside : t.worker = false)
    {list : List ThreadId} {below : List (Frame W)} (stack : t.stack = .join list :: below) :
    ¬ Handles s thread f := by
  have mem := List.mem_of_getElem? found
  obtain ⟨unguarded, free⟩ := trace.not_isWork_of_joined mem outside stack
  rintro ⟨t', found', handles⟩
  rw [found] at found'
  cases found'
  rcases handles with ⟨stake, held, course⟩ | ⟨group, g, token, _⟩
  · have idle := free stake held
    cases stake with
    | announce g =>
      have one : 0 < Stake.announces f (.announce g) := by
        simpa [Stake.course, Stake.work] using course
      obtain rfl : g = f := one_pos one
      obtain ⟨frame, inStack, holds⟩ := List.mem_flatMap.1 held
      obtain rfl := Frame.holds_of_mem holds
      obtain ⟨above, lower, eq, grounded, rest⟩ := (trace.grounded t mem).find inStack
      let place : Place history s (.announce g) := ⟨t, above, lower, mem, eq, grounded, rest⟩
      refine trace.not_announce_of_unguarded counted place fun guarded => unguarded ?_
      have whole : Guarded (.join list :: below) := by
        rw [← stack, eq]
        exact guarded_append.2 (.inr (guarded_cons.2 (.inr guarded)))
      exact whole
    | bound g byClient | hand g | job g | unit g | settle g => cases idle
    | _ => cases course
  · cases free _ token

theorem worker_of_unit {t : Thread W} (mem : t ∈ s.threads) {f : FutureId}
    (runs : .unit f ∈ Frame.stakesOf t.stack) : t.worker = true := by
  obtain ⟨frame, inStack, own⟩ := List.mem_flatMap.1 runs
  obtain ⟨_, _, _, seat, _⟩ := (trace.seated t mem).find inStack
  obtain ⟨job, _, ⟨code, rfl⟩ | ⟨next, rfl⟩⟩ := Frame.holds_of_mem own
  · exact seat.suits
  · exact seat.suits

/-- What holds when a thread that is no worker has waited for all workers. -/
theorem quiescent (closed : s.shared.queue.closed = true) {thread taker : ThreadId}
    (outside : workers ≤ thread) (stands : s.acting thread = some (.join []))
    (ended : ∀ worker < workers, worker ≠ taker → s.isDone worker = true) :
    Quiescent workers history s thread taker := by
  obtain ⟨t, below, found, stack⟩ := exists_of_acting stands
  have mem := List.mem_of_getElem? found
  have outside' : t.worker = false := by
    rw [← isWorker_eq found, ← Bool.not_eq_true, trace.isWorker_iff]
    exact Nat.not_lt_of_le outside
  have elsewhere {k : ThreadId} {t' : Thread W} (found' : s.threads[k]? = some t') {stake : Stake}
      (held : stake ∈ Frame.stakesOf t'.stack) : workers ≤ k ∨ k = taker := by
    by_contra neither
    obtain ⟨staff, other⟩ := not_or.1 neither
    have done := ended k (Nat.lt_of_not_le staff) other
    simp only [isDone, found', List.isEmpty_iff] at done
    rw [done] at held
    cases held
  refine ⟨ended, fun k t' f found' runs => ?_, fun busy => ?_, fun f byClient counted => ?_⟩
  · have staff := trace.worker_of_unit (List.mem_of_getElem? found') runs
    rw [← isWorker_eq found', trace.isWorker_iff] at staff
    exact (elsewhere found' runs).resolve_left (Nat.not_le_of_lt staff)
  · obtain ⟨t', mem', stake, held, work⟩ := trace.hasWork_of_busy closed busy
    obtain ⟨k, found'⟩ := List.getElem?_of_mem mem'
    refine ⟨k, ?_, elsewhere found' held, t', found', stake, held, work⟩
    rintro rfl
    rw [found] at found'
    cases found'
    rw [(trace.not_isWork_of_joined mem outside' stack).2 stake held] at work
    cases work
  · refine (trace.handled_of_counted closed counted).imp_right ?_
    rintro ⟨k, t', found', handles⟩
    refine ⟨k, ?_, ?_, t', found', handles⟩
    · rintro rfl
      exact trace.not_handles_of_joined counted found outside' stack ⟨t', found', handles⟩
    · rcases handles with ⟨stake, held, _⟩ | ⟨group, g, token, _⟩
      · exact elsewhere found' held
      · exact elsewhere found' token

end

end Trace

/-! ## What begins afterwards -/

/-- A thread is about to begin no turn. -/
def Turnless (s : State W) (thread : ThreadId) : Prop :=
  ∀ t group, s.threads[thread]? = some t → .turn group ∉ t.stack

theorem Log.afterwards_of_closed
    (trace : Trace client (State.start workers world kept threads) history s)
    (closed : s.shared.queue.closed = true) {later : List (Beat W)}
    (next : Log client s later s') : Afterwards client s later s' := by
  obtain ⟨log, rfl, run⟩ := trace.exists_log
  induction next with
  | start =>
    refine ⟨closed, fun thread t group found mem => ⟨⟨t, found, mem⟩, rfl, ?_⟩, fun _ => .inl rfl⟩
    obtain ⟨g, own, _⟩ := trace.laden group (due_of_turn found mem)
    exact ⟨g, g, own, own, List.prefix_rfl⟩
  | step between taken ih =>
    exact afterwards_step trace.laden (run.append between).trace ih taken

theorem begun_of_turnless
    (trace : Trace client (State.start workers world kept threads) history s)
    (closed : s.shared.queue.closed = true) {later : List (Beat W)}
    (next : Log client s later s') {thread : ThreadId} (turnless : Turnless s thread) :
    begun client thread later = [] ∧ Turnless s' thread := by
  have afterwards := Log.afterwards_of_closed trace closed next
  constructor
  · refine (afterwards.begun thread).resolve_right ?_
    rintro ⟨f, ⟨t, group, g, found, mem, _⟩, _⟩
    exact turnless t group found mem
  · intro t group found mem
    obtain ⟨⟨t', found', mem'⟩, _⟩ := afterwards.turn thread t group found mem
    exact turnless t' group found' mem'

theorem Log.split_of_closed {start : State W} (run : Log client start log s)
    (opened : start.shared.queue.closed = false) (closed : s.shared.queue.closed = true) :
    ∃ earlier close later futures, log = earlier ++ close :: later ∧
      close.event client = .closed futures := by
  induction run with
  | start =>
    rw [opened] at closed
    cases closed
  | @step log s s' thread choice run taken ih =>
    by_cases already : s.shared.queue.closed = true
    · obtain ⟨earlier, close, later, futures, rfl, event⟩ := ih already
      exact ⟨earlier, close, later ++ [⟨s, thread⟩], futures, by simp, event⟩
    · rw [(step_accounts taken).closed] at closed
      cases event : s.event client thread with
      | closed futures => exact ⟨log, ⟨s, thread⟩, [], futures, rfl, event⟩
      | _ =>
        rw [event] at closed
        exact absurd closed already

/-- Nobody is about to begin a turn once a thread has waited for all workers but the one that
took the list of workers. -/
theorem Log.turnless {before : List (Beat W)}
    (run : Log client (State.start workers world kept threads) before s) {take : Beat W}
    (mem : take ∈ before) (takes : Takes workers take)
    (ended : ∀ worker < workers, worker ≠ take.thread → s.isDone worker = true)
    (thread : ThreadId) : Turnless s thread := by
  by_cases taker : thread = take.thread
  · -- Whoever takes the list is at no turn, and the queue is closed.
    subst taker
    obtain ⟨earlier, later, rfl⟩ := List.append_of_mem mem
    obtain ⟨first, choice, s', taken, next⟩ := run.split
    obtain ⟨t, below, found, stack⟩ := exists_of_acting takes.1
    have inThreads := List.mem_of_getElem? found
    have closed : take.s.shared.queue.closed = true := by
      refine first.trace.shut.frames t inThreads .lockCrew ?_ rfl
      rw [stack]
      exact List.mem_cons_self
    refine (begun_of_turnless first.trace closed ((Log.one taken).append next) ?_).2
    intro t' group found' turn
    rw [found] at found'
    cases found'
    have innermost := first.trace.turn_innermost t inThreads
    rw [stack] at innermost turn
    rcases List.mem_cons.1 turn with eq | lower
    · cases eq
    · exact innermost.1 group lower
  · intro t group found turn
    have staff := run.trace.worker_of_isOnRound t (List.mem_of_getElem? found) _ turn rfl
    rw [← isWorker_eq found, run.trace.isWorker_iff] at staff
    have done := ended thread staff taker
    simp only [isDone, found, List.isEmpty_iff] at done
    rw [done] at turn
    cases turn

/-- When a shutdown on a thread that is no worker returns from its wait for the workers, what
is in flight is in the hands of other threads, and no unit begins any more.  When it returns
at once, the queue was closed before, and each thread begins one unit at most that it had in
hand then. -/
theorem Log.quiesces {before after : List (Beat W)} {beat : Beat W}
    (run : Log client (State.start workers world kept threads) (before ++ beat :: after) s)
    (outside : workers ≤ beat.thread) :
    (beat.s.acting beat.thread = some (.join []) →
      ∃ take ∈ before, Takes workers take ∧
        Quiescent workers (events client before) beat.s beat.thread take.thread ∧
        ∀ thread, begun client thread (beat :: after) = []) ∧
    (beat.s.acting beat.thread = some .shutdown → beat.s.shared.flag = true →
      ∃ earlier close later futures, before = earlier ++ close :: later ∧
        close.event client = .closed futures ∧
        ∀ thread, begun client thread (later ++ beat :: after) = [] ∨
          ∃ f, InHand close.s thread f ∧ begun client thread (later ++ beat :: after) = [f]) := by
  obtain ⟨earlier, choice, s', taken, next⟩ := run.split
  have trace := earlier.trace
  constructor
  · intro stands
    obtain ⟨t, below, found, stack⟩ := exists_of_acting stands
    have closed : beat.s.shared.queue.closed = true := by
      refine trace.shut.frames t (List.mem_of_getElem? found) (.join []) ?_ rfl
      rw [stack]
      exact List.mem_cons_self
    cases earlier.mustered with
    | whole _ none => exact absurd stands (none _ _)
    | taken take mem takes call =>
      have ended : ∀ worker < workers, worker ≠ take.thread → beat.s.isDone worker = true := by
        intro worker bound other
        refine (call.waits worker bound other).resolve_right ?_
        rintro ⟨list, stands', waiting⟩
        rw [trace.locked.alone stands stands', stands] at stands'
        cases stands'
        cases waiting
      refine ⟨take, mem, takes, trace.quiescent closed outside stands ended, fun thread => ?_⟩
      exact (begun_of_turnless trace closed ((Log.one taken).append next)
        (earlier.turnless mem takes ended thread)).1
  · intro _ up
    obtain ⟨first, close, later, futures, rfl, closing⟩ :=
      earlier.split_of_closed rfl (trace.shut.flag up)
    rw [List.append_assoc] at run
    exact ⟨first, close, later, futures, rfl, closing, (run.afterwards closing).begun⟩

/-- A client that places a unit and shuts the scheduler down. -/
def placeAndShut : Code Unit :=
  Sample.create fun a => Sample.schedule .free a (.ask .shutdown fun _ => Sample.done)

def twoShutdownsStart : State Unit :=
  State.start 1 () [] [placeAndShut, .ask .shutdown fun _ => Sample.done]

/-- The worker runs the unit that the first client has placed, and then the first shutdown
takes its course.  The second one comes too late. -/
def twoShutdownsTurns : List ThreadId :=
  List.replicate 11 1 ++ List.replicate 6 0 ++ List.replicate 5 1 ++ List.replicate 2 0 ++
    List.replicate 4 1 ++ List.replicate 4 2

def twoShutdownsLog : List (Beat Unit) :=
  twoShutdownsStart.beats (Sample.client Sample.value) twoShutdownsTurns

def twoShutdownsEnd : State Unit :=
  (twoShutdownsStart.replay (Sample.client Sample.value) twoShutdownsTurns).2

/-- The first shutdown returns from its wait, and the second one at once. -/
theorem quiesces_twoShutdowns :
    (∃ beat take, twoShutdownsLog[25]? = some beat ∧ take ∈ twoShutdownsLog.take 25 ∧
      Takes 1 take ∧
      Quiescent 1 (events (Sample.client Sample.value) (twoShutdownsLog.take 25)) beat.s 1
        take.thread ∧
      ∀ thread, begun (Sample.client Sample.value) thread (beat :: twoShutdownsLog.drop 26) = []) ∧
    ∃ beat close futures, twoShutdownsLog[29]? = some beat ∧ close ∈ twoShutdownsLog.take 29 ∧
      close.event (Sample.client Sample.value) = .closed futures := by
  have run : Log (Sample.client Sample.value) twoShutdownsStart twoShutdownsLog twoShutdownsEnd :=
    log_beats _ _ _
  have split (n : Nat) (bound : n < twoShutdownsLog.length) : twoShutdownsLog =
      twoShutdownsLog.take n ++ twoShutdownsLog[n] :: twoShutdownsLog.drop (n + 1) := by
    rw [List.getElem_cons_drop, List.take_append_drop]
  have first : 25 < twoShutdownsLog.length := by decide +kernel
  have second : 29 < twoShutdownsLog.length := by decide +kernel
  constructor
  · rw [split 25 first] at run
    obtain ⟨waits, _⟩ := run.quiesces (Nat.le_refl 1)
    obtain ⟨take, mem, takes, quiescent, still⟩ := waits rfl
    exact ⟨_, take, List.getElem?_eq_getElem first, mem, takes, quiescent, still⟩
  · rw [split 29 second] at run
    obtain ⟨_, skips⟩ := run.quiesces (Nat.le_succ 1)
    obtain ⟨earlier, close, later, futures, eq, closing, _⟩ := skips rfl rfl
    refine ⟨_, close, futures, List.getElem?_eq_getElem second, ?_, closing⟩
    rw [eq]
    simp

/-- A client that places a unit that shuts the scheduler down, and does so itself. -/
def shutTwice : Code Unit :=
  Sample.create fun a =>
    .schedule .free (fun _ => .ask .shutdown fun _ => Sample.done) a fun _ =>
      .ask .shutdown fun _ => Sample.done

def shutTwiceStart : State Unit := State.start 1 () [] [shutTwice]

def shutTwiceTurns : List ThreadId :=
  List.replicate 8 1 ++ List.replicate 5 0 ++ List.replicate 2 1

/-- A client's shutdown returns at once while a unit that was counted before is running. -/
theorem shutdown_returns_early : ∃ history s s',
    Trace (Sample.client Sample.value) shutTwiceStart history s ∧
      s.acting 1 = some .shutdown ∧ s.shared.flag = true ∧
      s.step (Sample.client Sample.value) 1 = some s' ∧ s'.acting 1 = some (.deliver .done) ∧
      .counted 1 true ∈ history ∧ (s'.shared.futures.get? 1).bind Future.state = none ∧
      .unit 1 ∈ s'.stakes ∧ s'.shared.inFlight = 1 ∧ s'.threads.length = 2 :=
  ⟨_, _, _, trace_replay _ shutTwiceStart shutTwiceTurns, rfl, rfl, rfl, rfl,
    List.mem_of_getElem? (i := 4) rfl, rfl, List.mem_of_getElem? (i := 0) rfl, rfl, rfl⟩

end State
end Strands
