/-
Shutdowns that wait for each other.

The thread that takes the list of workers keeps it locked until all workers on it have
ended.  A worker on it that is in a shutdown of its own comes to the lock sooner or later,
and then the two wait for each other: `InCycle`.  What is wrong is wrong from the moment the
list is taken (`Overlaps`), and it is never mended: `Stuck` holds from then on, and it holds
of no other run (`Log.deadlocks`).  Both threads looked at the flag before either had raised
it, and nothing but that look keeps two shutdowns apart.
-/
import Strands.Proofs.Replay
import Strands.Proofs.Shutting

namespace Strands

variable {W : Type}

namespace State

/-- A thread has locked the list of workers and waits for a worker to end, which waits to
lock the list. -/
def InCycle (s : State W) (thread worker : ThreadId) : Prop :=
  s.shared.crew.owner = some thread ∧ worker ≠ thread ∧
    (∃ rest, s.acting thread = some (.join (worker :: rest))) ∧
    s.acting worker = some .lockCrew

/-- A thread is in a shutdown of its own and has not locked the list of workers yet. -/
def UnderWay (s : State W) (thread : ThreadId) : Prop :=
  ∃ t, s.threads[thread]? = some t ∧ (.close ∈ t.stack ∨ .lockCrew ∈ t.stack)

/-- A thread has locked the list of workers and is still to wait for one that is in a
shutdown of its own. -/
structure Stuck (s : State W) (thread worker : ThreadId) : Prop where
  owner : s.shared.crew.owner = some thread
  other : worker ≠ thread
  waits : ∃ list, s.acting thread = some (.join list) ∧ worker ∈ list
  underWay : UnderWay s worker

/-- A thread takes the list of workers while one on it is in a shutdown of its own. -/
def Overlaps (thread worker : ThreadId) (beat : Beat W) : Prop :=
  beat.thread = thread ∧ beat.s.acting thread = some .lockCrew ∧
    worker ∈ beat.s.shared.crew.workers ∧ worker ≠ thread ∧ UnderWay beat.s worker

variable {client : Client W} {workers : Nat} {world : W} {kept : List ObjectId}
  {threads : List (Code W)} {s s' : State W} {history : List Event} {log : List (Beat W)}
  {thread worker actor : ThreadId} {choice : Choice}

theorem not_isDone_of_underWay (underWay : UnderWay s thread) : s.isDone thread = false := by
  obtain ⟨t, found, frames⟩ := underWay
  simp only [isDone, found]
  cases stack : t.stack with
  | nil =>
    rw [stack] at frames
    rcases frames with close | lock
    · cases close
    · cases lock
  | cons frame below => rfl

theorem InCycle.underWay (cycle : InCycle s thread worker) : UnderWay s worker := by
  obtain ⟨_, _, _, stands⟩ := cycle
  obtain ⟨t, below, found, stack⟩ := exists_of_acting stands
  exact ⟨t, found, .inr (by rw [stack]; exact List.mem_cons_self)⟩

theorem InCycle.stuck (cycle : InCycle s thread worker) : Stuck s thread worker := by
  have underWay := cycle.underWay
  obtain ⟨owner, other, ⟨rest, joins⟩, _⟩ := cycle
  exact ⟨owner, other, ⟨_, joins, List.mem_cons_self⟩, underWay⟩

/-- Neither of the two takes a step. -/
theorem InCycle.step_eq_none (cycle : InCycle s thread worker) :
    s.step client thread choice = none ∧ s.step client worker choice = none := by
  have unended := not_isDone_of_underWay cycle.underWay
  obtain ⟨owner, other, ⟨rest, joins⟩, locks⟩ := cycle
  constructor
  · refine State.step_eq_none joins (fun reply eq => by cases eq) fun sight me isDone => ?_
    refine if_neg ?_
    rw [me, isDone, unended]
    simp [other]
  · refine State.step_eq_none locks (fun reply eq => by cases eq) fun sight _ _ => ?_
    simp [Frame.step, lockCrewStep, owner]

/-! ## One step -/

section Step

variable (trace : Trace client (State.start workers world kept threads) history s)
  (acted : Acted client s s' actor choice)

include acted

theorem underWay_other (different : worker ≠ actor) : UnderWay s' worker ↔ UnderWay s worker := by
  constructor
  · rintro ⟨t, found, frames⟩
    rcases acted.other_eq different found with earlier | ⟨code, _, rfl⟩
    · exact ⟨t, earlier, frames⟩
    · rcases frames with close | lock
      · cases List.mem_singleton.1 close
      · cases List.mem_singleton.1 lock
  · rintro ⟨t, found, frames⟩
    exact ⟨t, acted.stays different found, frames⟩

/-- A worker in a shutdown stays in it while somebody else has the list locked. -/
theorem underWay_of_acted (owner : s.shared.crew.owner = some thread)
    (underWay : UnderWay s actor) : UnderWay s' actor := by
  obtain ⟨t, found, frames⟩ := underWay
  rw [acted.actor_eq] at found
  cases found
  refine ⟨_, acted.actor_eq', ?_⟩
  have lower : .close ∈ acted.below ∨ .lockCrew ∈ acted.below → .close ∈ acted.progress.frames ++
      acted.below ∨ .lockCrew ∈ acted.progress.frames ++ acted.below :=
    Or.imp (List.mem_append_right _) (List.mem_append_right _)
  have apart (shutting : ∀ frame ∈ acted.top, frame ≠ .close ∧ frame ≠ .lockCrew) :
      .close ∈ acted.below ∨ .lockCrew ∈ acted.below := by
    rw [acted.stack] at frames
    rcases frames with close | lock
    · exact .inl ((List.mem_append.1 close).resolve_left fun top => (shutting _ top).1 rfl)
    · exact .inr ((List.mem_append.1 lock).resolve_left fun top => (shutting _ top).2 rfl)
  cases acted.move.shuts with
  | keep none _ _ =>
    refine lower (apart fun frame mem => ⟨?_, ?_⟩)
    · rintro rfl; cases none _ mem
    · rintro rfl; cases none _ mem
  | skip top | begin top | idle top | raise top | ring top | wait _ _ top | unlock top =>
    exact lower (apart (by simp [top]))
  | close _ p =>
    rw [p]
    exact .inr (by simp [closeStep])
  | lock _ free =>
    rw [owner] at free
    cases free

include trace

theorem crew_of_owned (owner : s.shared.crew.owner = some thread) (different : thread ≠ actor) :
    s'.shared.crew = s.shared.crew := by
  cases trace.joins_of_acted acted with
  | aside crew | wait _ _ _ _ crew => exact crew
  | lock _ free =>
    rw [owner] at free
    cases free
  | unlock stands =>
    have mine := (trace.locked.owner actor).2 ⟨_, stands⟩
    rw [owner] at mine
    exact absurd (Option.some.inj mine) different

theorem owner_of_owned (owner : s'.shared.crew.owner = some thread) (different : thread ≠ actor) :
    s.shared.crew.owner = some thread := by
  cases trace.joins_of_acted acted with
  | aside crew | wait _ _ _ _ crew => rwa [crew] at owner
  | lock _ _ crew =>
    rw [crew] at owner
    exact absurd (Option.some.inj owner).symm different
  | unlock _ crew =>
    rw [crew] at owner
    cases owner

/-- While somebody has the list locked no worker gets into a shutdown. -/
theorem underWay_before (owner : s.shared.crew.owner = some thread)
    (staff : acted.actor.worker = true) (underWay : UnderWay s' actor) : UnderWay s actor := by
  obtain ⟨t, found, frames⟩ := underWay
  have up := trace.locked.flag (by rw [owner]; exact Option.some_ne_none _)
  have first (frame : Frame W) (top : acted.top = [frame])
      (shuts : frame = .close ∨ frame = .lockCrew) : UnderWay s actor := by
    refine ⟨_, acted.actor_eq, ?_⟩
    rw [acted.stack, top]
    rcases shuts with rfl | rfl
    · exact .inl List.mem_cons_self
    · exact .inr List.mem_cons_self
  have new (frame : Frame W) (shuts : frame = .close ∨ frame = .lockCrew)
      (mem : frame ∈ acted.progress.frames) : UnderWay s actor := by
    have shutting : frame.isShutting = true := by rcases shuts with rfl | rfl <;> rfl
    cases acted.move.shuts with
    | keep _ _ aloof =>
      rw [aloof.frames frame mem] at shutting
      cases shutting
    | skip _ _ p | raise _ p | unlock _ p => rw [p] at mem; cases mem
    | ring _ _ _ none => rw [none] at mem; cases mem
    | begin _ down =>
      rw [up] at down
      cases down
    | idle top =>
      -- A worker does not wait for work in flight to end.
      have seated := trace.seated acted.actor acted.actor_mem
      rw [acted.stack, top, staff] at seated
      cases seated.1.suits
    | close top => exact first _ top (.inl rfl)
    | lock top _ p => exact first _ top (.inr rfl)
    | wait _ _ _ _ p =>
      rw [p] at mem
      obtain rfl := List.mem_singleton.1 mem
      rcases shuts with eq | eq <;> cases eq
  rcases frames with close | lock
  · rcases shutting_of_acted acted found close rfl with ⟨t', found', mem, _⟩ | ⟨_, mem⟩
    · exact ⟨t', found', .inl mem⟩
    · exact new _ (.inl rfl) mem
  · rcases shutting_of_acted acted found lock rfl with ⟨t', found', mem, _⟩ | ⟨_, mem⟩
    · exact ⟨t', found', .inr mem⟩
    · exact new _ (.inr rfl) mem

theorem Stuck.step (stuck : Stuck s thread worker) : Stuck s' thread worker := by
  obtain ⟨owner, other, ⟨list, stands, mem⟩, underWay⟩ := stuck
  by_cases own : thread = actor
  · subst own
    have still := (underWay_other acted other).2 underWay
    cases trace.joins_of_acted acted with
    | aside _ before => exact absurd stands (before list)
    | lock before =>
      rw [before] at stands
      cases stands
    | wait first rest before reached crew next =>
      rw [before] at stands
      cases stands
      refine ⟨by rw [crew, owner], other, ⟨rest, next, ?_⟩, still⟩
      rcases List.mem_cons.1 mem with rfl | later
      · rcases reached with same | ended
        · exact absurd same other
        · rw [not_isDone_of_underWay underWay] at ended
          cases ended
      · exact later
    | unlock before =>
      rw [before] at stands
      cases stands
      cases mem
  · refine ⟨by rw [crew_of_owned trace acted owner own, owner], other,
      ⟨list, acted.acting_stays own stands, mem⟩, ?_⟩
    by_cases same : worker = actor
    · subst same
      exact underWay_of_acted acted owner underWay
    · exact (underWay_other acted same).2 underWay

theorem stuck_of_overlaps (overlaps : Overlaps thread worker ⟨s, actor⟩) :
    Stuck s' thread worker := by
  obtain ⟨rfl, stands, listed, other, underWay⟩ := overlaps
  cases trace.joins_of_acted acted with
  | lock _ _ crew next =>
    exact ⟨by rw [crew], other, ⟨_, next, listed⟩, (underWay_other acted other).2 underWay⟩
  | aside crew before =>
    -- The step of a thread at the lock is to take it.
    have top := acted.top_of_acting stands fun reply eq => by cases eq
    cases acted.move.shuts with
    | lock _ _ p =>
      have shared := acted.shared'
      rw [p] at shared
      have listless : s'.shared.crew.workers = [] := by rw [shared]
      rw [crew] at listless
      change worker ∈ s.shared.crew.workers at listed
      rw [listless] at listed
      cases listed
    | keep none =>
      rw [top] at none
      cases none _ List.mem_cons_self
    | skip other | begin other | idle other | close other | raise other | ring other
    | wait _ _ other | unlock other =>
      rw [top] at other
      cases other
  | wait _ _ joins | unlock joins =>
    change s.acting actor = _ at stands
    rw [joins] at stands
    cases stands

/-- Threads get stuck by an overlap and by nothing else. -/
theorem stuck_or_overlaps (staff : worker < workers) (stuck : Stuck s' thread worker) :
    Stuck s thread worker ∨ Overlaps thread worker ⟨s, actor⟩ := by
  obtain ⟨owner, other, ⟨list, stands, mem⟩, underWay⟩ := stuck
  by_cases own : thread = actor
  · subst own
    have before := (underWay_other acted other).1 underWay
    cases trace.joins_of_acted acted with
    | aside _ _ after => exact absurd stands (after list)
    | lock locks _ _ next =>
      rw [next] at stands
      cases stands
      exact .inr ⟨rfl, locks, mem, other, before⟩
    | wait first rest joins _ _ next =>
      rw [next] at stands
      cases stands
      exact .inl ⟨(trace.locked.owner _).2 ⟨_, joins⟩, other,
        ⟨_, joins, List.mem_cons_of_mem _ mem⟩, before⟩
    | unlock _ _ after => exact absurd stands (after list)
  · have owned := owner_of_owned trace acted owner own
    refine .inl ⟨owned, other, ⟨list, (acted.acting_join own).1 stands, mem⟩, ?_⟩
    by_cases same : worker = actor
    · subst same
      have worker := trace.isWorker_iff.2 staff
      rw [isWorker_eq acted.actor_eq] at worker
      exact underWay_before trace acted owned worker underWay
    · exact (underWay_other acted same).1 underWay

end Step

/-! ## Along every run -/

theorem Log.worker_of_stuck (run : Log client (State.start workers world kept threads) log s)
    (stuck : Stuck s thread worker) : worker < workers := by
  obtain ⟨_, _, ⟨list, stands, mem⟩, _⟩ := stuck
  cases run.mustered with
  | whole _ none => exact absurd stands (none thread list)
  | taken _ _ _ call => exact (call.joins thread list stands worker mem).2

theorem Log.stuck_iff (run : Log client (State.start workers world kept threads) log s) :
    Stuck s thread worker ↔ ∃ beat ∈ log, Overlaps thread worker beat := by
  induction run with
  | start =>
    constructor
    · rintro ⟨_, _, ⟨list, stands, _⟩, _⟩
      exact absurd stands (not_join_of_start list)
    · rintro ⟨_, mem, _⟩
      cases mem
  | @step log s s' actor choice run taken ih =>
    obtain ⟨acted⟩ := step_cases taken
    constructor
    · intro stuck
      rcases stuck_or_overlaps run.trace acted ((run.step taken).worker_of_stuck stuck) stuck with
        earlier | overlaps
      · obtain ⟨beat, mem, overlaps⟩ := ih.1 earlier
        exact ⟨beat, List.mem_append_left _ mem, overlaps⟩
      · exact ⟨_, List.mem_append_right _ (List.mem_singleton_self _), overlaps⟩
    · rintro ⟨beat, mem, overlaps⟩
      rcases List.mem_append.1 mem with earlier | now
      · exact (ih.2 ⟨beat, earlier, overlaps⟩).step run.trace acted
      · obtain rfl := List.mem_singleton.1 now
        exact stuck_of_overlaps run.trace acted overlaps

/-- A thread and a worker wait for each other for ever exactly if the one has taken the list
of workers while the other, on the list, was in a shutdown of its own; and each of the two
had found the flag down. -/
theorem Log.deadlocks (run : Log client (State.start workers world kept threads) log s)
    (thread worker : ThreadId) :
    (Stuck s thread worker ↔ ∃ beat ∈ log, Overlaps thread worker beat) ∧
    (Stuck s thread worker → worker < workers ∧ (∃ beat ∈ log, Passes thread beat) ∧
      (∃ beat ∈ log, Passes worker beat) ∧
      ∀ later s', Log client s later s' → Stuck s' thread worker) ∧
    (InCycle s thread worker → Stuck s thread worker ∧
      ∀ choice, s.step client thread choice = none ∧ s.step client worker choice = none) := by
  refine ⟨run.stuck_iff, fun stuck => ⟨run.worker_of_stuck stuck, ?_, ?_, ?_⟩,
    fun cycle => ⟨cycle.stuck, fun choice => cycle.step_eq_none⟩⟩
  · obtain ⟨list, stands, _⟩ := stuck.waits
    obtain ⟨t, below, found, stack⟩ := exists_of_acting stands
    have inStack : .join list ∈ t.stack := by
      rw [stack]
      exact List.mem_cons_self
    exact run.passes found inStack rfl
  · obtain ⟨t, found, close | lock⟩ := stuck.underWay
    · exact run.passes found close rfl
    · exact run.passes found lock rfl
  · intro later s' next
    obtain ⟨beat, mem, overlaps⟩ := run.stuck_iff.1 stuck
    exact (run.append next).stuck_iff.2 ⟨beat, List.mem_append_left _ mem, overlaps⟩

def rivals : Code Unit :=
  Sample.create fun a => Sample.create fun b =>
    .schedule .free (fun _ => .ask .shutdown fun _ => Sample.done) a fun _ =>
      .schedule .free (fun _ => .ask .shutdown fun _ => Sample.done) b fun _ => Sample.done

def rivalsStart : State Unit := State.start 2 () [] [rivals]

/-- Each of the two workers runs one of the units until it has looked at the flag.  Then the
first one goes on as far as it can, and the second one after it. -/
def rivalsTurns : List ThreadId :=
  List.replicate 19 2 ++ List.replicate 3 0 ++ List.replicate 3 1 ++ List.replicate 5 0 ++
    List.replicate 3 1

def rivalsLog : List (Beat Unit) := rivalsStart.beats (Sample.client Sample.value) rivalsTurns

def rivalsEnd : State Unit := (rivalsStart.replay (Sample.client Sample.value) rivalsTurns).2

/-- The two workers wait for each other, and each has found the flag down. -/
theorem deadlocks_rivals :
    (∃ beat ∈ rivalsLog, Overlaps 0 1 beat) ∧ (∃ beat ∈ rivalsLog, Passes 0 beat) ∧
      (∃ beat ∈ rivalsLog, Passes 1 beat) ∧
      (∀ later s', Log (Sample.client Sample.value) rivalsEnd later s' → Stuck s' 0 1) ∧
      rivalsEnd.step (Sample.client Sample.value) 0 = none ∧
      rivalsEnd.step (Sample.client Sample.value) 1 = none := by
  have run : Log (Sample.client Sample.value) rivalsStart rivalsLog rivalsEnd := log_beats _ _ _
  obtain ⟨overlaps, gets, waits⟩ := run.deadlocks 0 1
  obtain ⟨stuck, none⟩ := waits ⟨rfl, by decide, ⟨[], rfl⟩, rfl⟩
  obtain ⟨_, first, second, forever⟩ := gets stuck
  exact ⟨overlaps.1 stuck, first, second, forever, none {}⟩

/-- Shutdowns of two workers come to wait for each other. -/
theorem inCycle_rivals : ∃ history s,
    Trace (Sample.client Sample.value) rivalsStart history s ∧ InCycle s 0 1 :=
  ⟨_, _, trace_replay _ rivalsStart rivalsTurns, rfl, by decide, ⟨[], rfl⟩, rfl⟩

end State
end Strands
