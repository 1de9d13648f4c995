/-
What a step does to a shutdown.

`Frame.isShutting` names the frames of a shutdown that has got past its look at the flag.
`Shuts` lists what a step can do to them, to the flag and to the list of workers, and
`Move.shuts` says of every step that it does one of these.  Three things follow for whole
runs.  Whoever shuts down found the flag down (`Log.passes`).  The list is locked by the
thread that waits for workers and by nobody else, and the flag is up by then
(`Trace.locked`).  And one thread takes the whole list: all workers but that one have ended,
or it is still to wait for them (`Log.mustered`).
-/
import Strands.Proofs.StackShape

namespace Strands

variable {W : Type}

namespace Frame

def isShutting : Frame W → Bool
  | awaitIdle | close | raiseFlag | ringAll | lockCrew | join _ => true
  | _ => false

end Frame

def Unshutting (frames : List (Frame W)) : Prop := ∀ frame ∈ frames, frame.isShutting = false

@[simp] theorem unshutting_nil : Unshutting ([] : List (Frame W)) := fun _ mem => by cases mem

@[simp] theorem unshutting_cons {frame : Frame W} {frames : List (Frame W)} :
    Unshutting (frame :: frames) ↔ frame.isShutting = false ∧ Unshutting frames :=
  List.forall_mem_cons

@[simp] theorem unshutting_append {a b : List (Frame W)} :
    Unshutting (a ++ b) ↔ Unshutting a ∧ Unshutting b := List.forall_mem_append

structure Aloof (s : Shared W) (p : Progress W) : Prop where
  flag : p.shared.flag = s.flag
  crew : p.shared.crew = s.crew
  frames : Unshutting p.frames

section Steps

attribute [local simp] Frame.isShutting

@[simp] theorem Job.unshutting_refuse (job : Job W) : Unshutting job.refuse := by
  simp [refuse]

@[simp] theorem Item.unshutting_refuse_all (items : List (Item W)) :
    Unshutting (items.flatMap Item.refuse) := by
  intro frame mem
  obtain ⟨item, _, inItem⟩ := List.mem_flatMap.1 mem
  cases item with
  | job job => exact job.unshutting_refuse frame inItem
  | group group =>
    rw [List.mem_singleton.1 inItem]
    rfl

/-- Frames of no shutdown leave no frame of one, the look at the flag aside. -/
theorem Frame.LeadsTo.unshutting {isOpen : Bool} {frame next : Frame W}
    (leads : frame.LeadsTo isOpen next) (aloof : frame.isShutting = false)
    (notShutdown : frame ≠ .shutdown) : next.isShutting = false := by
  cases leads with
  | code leaves => cases next <;> first | rfl | cases leaves
  | awaitIdle | close => exact absurd rfl notShutdown
  | _ => first | rfl | cases aloof

variable {client : Client W} {s : Shared W}

/-- The flag and the list of workers are a shutdown's to change. -/
theorem Frame.step_armed {sight : Sight} {choice : Choice} {frame : Frame W} {p : Progress W}
    (aloof : frame.isShutting = false) (taken : frame.step client sight choice s = some p) :
    p.shared.flag = s.flag ∧ p.shared.crew = s.crew := by
  cases frame with
  | running role code => rw [Code.step_shared taken]; exact ⟨rfl, rfl⟩
  | letGo held | checkFlag | takeHandlers shutsDown => cases taken; exact ⟨rfl, rfl⟩
  | ring =>
    simp only [step, ringStep] at taken
    split at taken <;> cases taken
    exact ⟨rfl, rfl⟩
  | lockBell | getUp =>
    simp only [step, lockBellStep, getUpStep] at taken
    split at taken <;> cases taken
    exact ⟨rfl, rfl⟩
  | recheckQueue | recheckFlag | settleDown =>
    cases taken
    simp only [recheckQueueStep, recheckFlagStep, settleDownStep]
    split <;> exact ⟨rfl, rfl⟩
  | rest =>
    simp only [step, restStep] at taken
    split at taken
    · split at taken <;> cases taken
      exact ⟨rfl, rfl⟩
    · cases taken
      exact ⟨rfl, rfl⟩
  | awaitFuture future | awaitFutureAtMost future milliseconds =>
    simp only [step, awaitFutureStep] at taken
    split at taken
    · cases taken
      exact ⟨rfl, rfl⟩
    · split at taken <;> cases taken
      exact ⟨rfl, rfl⟩
  | awaitIdle | close | raiseFlag | ringAll | lockCrew | join workers => cases aloof
  | _ =>
    have steady := step_steady rfl (fun _ _ eq => by cases eq) (fun _ eq => by cases eq) taken
    exact ⟨steady.flag, steady.crew⟩

/-- Frames of no shutdown have nothing to do with shutting down, the look at the flag aside. -/
theorem Frame.step_aloof {sight : Sight} {choice : Choice} {frame : Frame W} {p : Progress W}
    (aloof : frame.isShutting = false) (notShutdown : frame ≠ .shutdown)
    (taken : frame.step client sight choice s = some p) : Aloof s p where
  flag := (step_armed aloof taken).1
  crew := (step_armed aloof taken).2
  frames next mem := (step_leads taken next mem).unshutting aloof notShutdown

/-! ## What a step does to a shutdown -/

inductive Shuts (sight : Sight) (s : Shared W) (top : List (Frame W)) (p : Progress W) : Prop
  | keep : Unshutting top → (.shutdown : Frame W) ∉ top → Aloof s p → Shuts sight s top p
  /-- A shutdown finds the flag up and returns. -/
  | skip : top = [.shutdown] → s.flag = true → p = { shared := s } → Shuts sight s top p
  | begin : top = [.shutdown] → s.flag = false →
      p = { shared := s, frames := if sight.worker then [.close] else [.awaitIdle] } →
      Shuts sight s top p
  | idle : top = [.awaitIdle] → s.inFlight = 0 → p = { shared := s, frames := [.close] } →
      Shuts sight s top p
  | close : top = [.close] → p = closeStep s → Shuts sight s top p
  | raise : top = [.raiseFlag] → p = raiseFlagStep s → Shuts sight s top p
  | ring : top = [.ringAll] → p.shared.flag = s.flag → p.shared.crew = s.crew → p.frames = [] →
      Shuts sight s top p
  | lock : top = [.lockCrew] → s.crew.owner = none →
      p = { shared := { s with crew := { workers := [], owner := some sight.me } }
            frames := [.join s.crew.workers] } → Shuts sight s top p
  | wait (worker : ThreadId) (rest : List ThreadId) : top = [.join (worker :: rest)] →
      worker = sight.me ∨ sight.isDone worker = true →
      p = { shared := s, frames := [.join rest] } → Shuts sight s top p
  | unlock : top = [.join []] →
      p = { shared := { s with crew := { s.crew with owner := none } } } → Shuts sight s top p

theorem Frame.step_shuts {sight : Sight} {choice : Choice} {frame : Frame W} {p : Progress W}
    (taken : frame.step client sight choice s = some p) : Shuts sight s [frame] p := by
  by_cases aloof : frame.isShutting = false ∧ frame ≠ .shutdown
  · refine .keep (unshutting_cons.2 ⟨aloof.1, unshutting_nil⟩) ?_
      (step_aloof aloof.1 aloof.2 taken)
    rw [List.mem_singleton]
    exact Ne.symm aloof.2
  cases frame with
  | shutdown =>
    cases taken
    cases up : s.flag with
    | true => exact .skip rfl up (by simp [shutdownStep, up])
    | false => exact .begin rfl up (by simp [shutdownStep, up])
  | awaitIdle =>
    simp only [step, awaitIdleStep] at taken
    split at taken <;> cases taken
    exact .idle rfl ‹_› rfl
  | close => cases taken; exact .close rfl rfl
  | raiseFlag => cases taken; exact .raise rfl rfl
  | ringAll =>
    simp only [step, ringStep] at taken
    split at taken <;> cases taken
    exact .ring rfl rfl rfl rfl
  | lockCrew =>
    simp only [step, lockCrewStep] at taken
    split at taken <;> cases taken
    exact .lock rfl ‹_› rfl
  | join workers =>
    cases workers with
    | nil => cases taken; exact .unlock rfl rfl
    | cons worker rest =>
      simp only [step, joinStep] at taken
      split at taken <;> cases taken
      exact .wait worker rest rfl ‹_› rfl
  | _ => exact absurd ⟨rfl, by simp⟩ aloof

theorem Move.shuts {sight : Sight} {choice : Choice} {top : List (Frame W)} {p : Progress W}
    (move : Move client sight choice s top p) : Shuts sight s top p := by
  cases move with
  | receive reply role next =>
    refine .keep (by simp) (by simp) ?_
    cases reply <;> exact ⟨rfl, rfl, by simp⟩
  | pass reply held => exact .keep (by simp) (by simp) ⟨rfl, rfl, by simp⟩
  | act taken => exact Frame.step_shuts taken

end Steps

/-! ## Along every trace -/

def unheralded : List (Frame W) → Bool
  | [] => false
  | .raiseFlag :: _ => false
  | .lockCrew :: _ => true
  | _ :: rest => unheralded rest

theorem unheralded_of_unshutting {frames : List (Frame W)} (below : List (Frame W))
    (none : Unshutting frames) : unheralded (frames ++ below) = unheralded below := by
  induction frames with
  | nil => rfl
  | cons frame rest ih =>
    obtain ⟨here, others⟩ := unshutting_cons.1 none
    rw [List.cons_append, ← ih others]
    cases frame with
    | raiseFlag | lockCrew => cases here
    | _ => rfl

def Frame.isPastClose : Frame W → Bool
  | raiseFlag | ringAll | lockCrew | join _ => true
  | _ => false

theorem Frame.isShutting_of_isPastClose {frame : Frame W} (past : frame.isPastClose = true) :
    frame.isShutting = true := by
  cases frame <;> first | rfl | cases past

namespace State

variable {client : Client W} {workers : Nat} {world : W} {kept : List ObjectId}
  {threads : List (Code W)} {s s' : State W} {history : List Event} {log : List (Beat W)}

theorem unshutting_of_start {t : Thread W}
    (mem : t ∈ (State.start workers world kept threads).threads) : Unshutting t.stack := by
  rcases stack_of_start mem with ⟨_, stack⟩ | ⟨_, code, _, stack⟩
  · rw [stack]
    exact unshutting_cons.2 ⟨rfl, unshutting_nil⟩
  · rw [stack]
    exact unshutting_cons.2 ⟨rfl, unshutting_nil⟩

/-- The flag stays up. -/
theorem flag_of_acted {thread : ThreadId} {choice : Choice}
    (acted : Acted client s s' thread choice) (up : s.shared.flag = true) :
    s'.shared.flag = true := by
  rw [acted.shared']
  cases acted.move.shuts with
  | keep _ _ aloof => rw [aloof.flag, up]
  | ring _ flag => rw [flag, up]
  | raise _ p => rw [p]; rfl
  | skip _ _ p | begin _ _ p | idle _ _ p | close _ p | lock _ _ p | wait _ _ _ _ p
  | unlock _ p =>
    rw [p]
    exact up

/-- A thread has a frame of a shutdown only if it had it before or has just been left it. -/
theorem shutting_of_acted {thread other : ThreadId} {choice : Choice}
    (acted : Acted client s s' thread choice) {t : Thread W} {frame : Frame W}
    (found : s'.threads[other]? = some t) (mem : frame ∈ t.stack)
    (shutting : frame.isShutting = true) :
    (∃ t', s.threads[other]? = some t' ∧ frame ∈ t'.stack ∧
      (other = thread → frame ∈ acted.below)) ∨
    other = thread ∧ frame ∈ acted.progress.frames := by
  by_cases same : other = thread
  · subst same
    rw [acted.actor_eq'] at found
    cases found
    rcases List.mem_append.1 mem with new | below
    · exact .inr ⟨rfl, new⟩
    · refine .inl ⟨acted.actor, acted.actor_eq, ?_, fun _ => below⟩
      rw [acted.stack]
      exact List.mem_append_right _ below
  · rcases acted.other_eq same found with earlier | ⟨code, _, rfl⟩
    · exact .inl ⟨t, earlier, mem, fun eq => absurd eq same⟩
    · rw [List.mem_singleton.1 mem] at shutting
      cases shutting

/-- A shutdown that finds the flag down. -/
def Passes (thread : ThreadId) (beat : Beat W) : Prop :=
  beat.thread = thread ∧ beat.s.acting thread = some .shutdown ∧ beat.s.shared.flag = false

namespace Log

/-- Whoever shuts the scheduler down found the flag down. -/
theorem passes (run : Log client (State.start workers world kept threads) log s)
    {thread : ThreadId} {t : Thread W} {frame : Frame W} (found : s.threads[thread]? = some t)
    (mem : frame ∈ t.stack) (shutting : frame.isShutting = true) :
    ∃ beat ∈ log, Passes thread beat := by
  induction run generalizing t frame with
  | start =>
    rw [unshutting_of_start (List.mem_of_getElem? found) frame mem] at shutting
    cases shutting
  | @step log s s' actor choice run taken ih =>
    obtain ⟨acted⟩ := step_cases taken
    have earlier {t : Thread W} {frame : Frame W} (found : s.threads[thread]? = some t)
        (mem : frame ∈ t.stack) (shutting : frame.isShutting = true) :
        ∃ beat ∈ log ++ [⟨s, actor⟩], Passes thread beat := by
      obtain ⟨beat, inLog, passes⟩ := ih found mem shutting
      exact ⟨beat, List.mem_append_left _ inLog, passes⟩
    rcases shutting_of_acted acted found mem shutting with ⟨t', found', mem', _⟩ | ⟨rfl, new⟩
    · exact earlier found' mem' shutting
    have before (first : Frame W) (top : acted.top = [first]) (shuts : first.isShutting = true) :
        ∃ beat ∈ log ++ [⟨s, thread⟩], Passes thread beat := by
      have inStack : first ∈ acted.actor.stack := by
        rw [acted.stack, top]
        exact List.mem_cons_self
      exact earlier acted.actor_eq inStack shuts
    cases acted.move.shuts with
    | keep _ _ aloof =>
      rw [aloof.frames frame new] at shutting
      cases shutting
    | skip _ _ p | raise _ p | unlock _ p => rw [p] at new; cases new
    | ring _ _ _ none => rw [none] at new; cases new
    | begin top down =>
      refine ⟨_, List.mem_append_right _ (List.mem_singleton_self _), rfl, ?_, down⟩
      rw [acted.acting, top]
      rfl
    | idle top | close top | lock top | wait _ _ top => exact before _ top rfl

end Log

/-- A shutdown that has got past its close has closed the queue, as has one that raised the
flag. -/
structure Shut (s : State W) : Prop where
  flag : s.shared.flag = true → s.shared.queue.closed = true
  frames : ∀ t ∈ s.threads, ∀ frame ∈ t.stack, frame.isPastClose = true →
    s.shared.queue.closed = true

/-- The list of workers is locked by the thread that waits for workers to end, the flag
being up. -/
structure Locked (s : State W) : Prop where
  owner : ∀ thread, s.shared.crew.owner = some thread ↔ ∃ list, s.acting thread = some (.join list)
  flag : s.shared.crew.owner ≠ none → s.shared.flag = true

/-- What a step of a thread does to the list of workers, and to a thread that waits for
workers to end. -/
inductive Joins (s s' : State W) (thread : ThreadId) : Prop
  | aside : s'.shared.crew = s.shared.crew → (∀ list, s.acting thread ≠ some (.join list)) →
      (∀ list, s'.acting thread ≠ some (.join list)) → Joins s s' thread
  | lock : s.acting thread = some .lockCrew → s.shared.crew.owner = none →
      s'.shared.crew = { workers := [], owner := some thread } →
      s'.acting thread = some (.join s.shared.crew.workers) → Joins s s' thread
  | wait (worker : ThreadId) (rest : List ThreadId) :
      s.acting thread = some (.join (worker :: rest)) →
      worker = thread ∨ s.isDone worker = true → s'.shared.crew = s.shared.crew →
      s'.acting thread = some (.join rest) → Joins s s' thread
  | unlock : s.acting thread = some (.join []) →
      s'.shared.crew = { s.shared.crew with owner := none } →
      (∀ list, s'.acting thread ≠ some (.join list)) → Joins s s' thread

theorem not_join_of_start {thread : ThreadId} (list : List ThreadId) :
    (State.start workers world kept threads).acting thread ≠ some (.join list) := fun stands => by
  obtain ⟨t, below, found, stack⟩ := exists_of_acting stands
  have none := unshutting_of_start (List.mem_of_getElem? found)
  rw [stack] at none
  cases none _ List.mem_cons_self

theorem Shut.step {thread : ThreadId} {choice : Choice} (shut : Shut s)
    (taken : s.step client thread choice = some s') : Shut s' := by
  obtain ⟨acted⟩ := step_cases taken
  have stays (closed : s.shared.queue.closed = true) : s'.shared.queue.closed = true := by
    rw [(step_accounts taken).closed, closed]
    cases s.event client thread <;> rfl
  have ofTop (frame : Frame W) (top : acted.top = [frame]) (past : frame.isPastClose = true) :
      s.shared.queue.closed = true := by
    refine shut.frames acted.actor acted.actor_mem frame ?_ past
    rw [acted.stack, top]
    exact List.mem_cons_self
  refine ⟨fun up => ?_, fun t mem frame inStack past => ?_⟩
  · by_cases already : s.shared.flag = true
    · exact stays (shut.flag already)
    · rw [acted.shared'] at up
      cases acted.move.shuts with
      | keep _ _ aloof => rw [aloof.flag] at up; exact absurd up already
      | ring _ flag => rw [flag] at up; exact absurd up already
      | raise top => exact stays (ofTop _ top rfl)
      | skip _ _ p | begin _ _ p | idle _ _ p | close _ p | lock _ _ p | wait _ _ _ _ p
      | unlock _ p =>
        rw [p] at up
        exact absurd up already
  · obtain ⟨thread, found⟩ := List.getElem?_of_mem mem
    have shutting := frame.isShutting_of_isPastClose past
    rcases shutting_of_acted acted found inStack shutting with
      ⟨t', found', mem', _⟩ | ⟨_, new⟩
    · exact stays (shut.frames t' (List.mem_of_getElem? found') frame mem' past)
    cases acted.move.shuts with
    | keep _ _ aloof =>
      rw [aloof.frames frame new] at shutting
      cases shutting
    | skip _ _ p | raise _ p | unlock _ p => rw [p] at new; cases new
    | ring _ _ _ none => rw [none] at new; cases new
    | begin _ _ p =>
      rw [p] at new
      dsimp only at new
      split at new <;> (rw [List.mem_singleton.1 new] at past; cases past)
    | idle _ _ p =>
      rw [p] at new
      rw [List.mem_singleton.1 new] at past
      cases past
    | close _ p =>
      rw [acted.shared', p]
      rfl
    | lock top | wait _ _ top => exact stays (ofTop _ top rfl)

namespace Trace

theorem shut (trace : Trace client (State.start workers world kept threads) history s) :
    Shut s := by
  refine trace.keeps (fun _ s => Shut s) ?_ fun before e moment ih => ih.step moment.taken
  refine ⟨fun up => absurd up Bool.false_ne_true, fun t mem frame inStack past => ?_⟩
  have aside := unshutting_of_start mem frame inStack
  rw [frame.isShutting_of_isPastClose past] at aside
  cases aside

end Trace

/-- While the flag is down, the acting thread is to raise it before it locks the list. -/
theorem heralded_of_acted {thread : ThreadId} {choice : Choice}
    (acted : Acted client s s' thread choice) (down : s'.shared.flag = false)
    (own : unheralded (acted.top ++ acted.below) = false) :
    unheralded (acted.progress.frames ++ acted.below) = false := by
  rw [acted.shared'] at down
  cases acted.move.shuts with
  | keep none _ aloof =>
    rw [unheralded_of_unshutting _ aloof.frames, ← own, unheralded_of_unshutting _ none]
  | begin top _ p =>
    rw [top] at own
    rw [p]
    dsimp only
    split <;> exact own
  | close top p =>
    rw [p, closeStep]
    dsimp only
    rw [List.append_assoc, unheralded_of_unshutting _ (Item.unshutting_refuse_all _)]
    rfl
  | raise top p => rw [p] at down; cases down
  | ring top _ _ none => rw [top] at own; rw [none]; exact own
  | lock top => rw [top] at own; cases own
  | skip top _ p | idle top _ p | wait _ _ top _ p | unlock top p =>
    rw [top] at own
    rw [p]
    exact own

namespace Trace

theorem heralded (trace : Trace client (State.start workers world kept threads) history s)
    (down : s.shared.flag = false) : ∀ t ∈ s.threads, unheralded t.stack = false := by
  refine trace.keeps
    (fun _ s => s.shared.flag = false → ∀ t ∈ s.threads, unheralded t.stack = false) ?_ ?_ down
  · intro _ t mem
    have none := unheralded_of_unshutting [] (unshutting_of_start mem)
    rwa [List.append_nil] at none
  · intro before e moment ih down t mem
    obtain ⟨acted⟩ := step_cases moment.taken
    have down₀ : moment.s.shared.flag = false := by
      by_contra up
      rw [flag_of_acted acted (by simpa using up)] at down
      cases down
    have ih := ih down₀
    obtain ⟨thread, found⟩ := List.getElem?_of_mem mem
    by_cases same : thread = moment.thread
    · subst same
      rw [acted.actor_eq'] at found
      cases found
      have own := ih acted.actor acted.actor_mem
      rw [acted.stack] at own
      exact heralded_of_acted acted down own
    · rcases acted.other_eq same found with earlier | ⟨code, _, rfl⟩
      · exact ih t (List.mem_of_getElem? earlier)
      · rfl

theorem flag_of_lockCrew
    (trace : Trace client (State.start workers world kept threads) history s) {thread : ThreadId}
    (stands : s.acting thread = some .lockCrew) : s.shared.flag = true := by
  obtain ⟨t, below, found, stack⟩ := exists_of_acting stands
  by_contra down
  have heralded := trace.heralded (by simpa using down) t (List.mem_of_getElem? found)
  rw [stack] at heralded
  cases heralded

/-- A thread is at a join only if its step has left it there. -/
theorem join_of_acting
    (trace : Trace client (State.start workers world kept threads) history s) {thread : ThreadId}
    {choice : Choice} (acted : Acted client s s' thread choice) {list : List ThreadId}
    (stands : s'.acting thread = some (.join list)) : .join list ∈ acted.progress.frames :=
  (trace.acting_cases acted stands).resolve_right fun patient => by cases patient

/-- What every step does to the list of workers. -/
theorem joins_of_acted (trace : Trace client (State.start workers world kept threads) history s)
    {thread : ThreadId} {choice : Choice} (acted : Acted client s s' thread choice) :
    Joins s s' thread := by
  have acting := acted.acting
  have shared := acted.shared'
  have aside (crew : s'.shared.crew = s.shared.crew)
      (before : ∀ list, acted.top.head? ≠ some (.join list))
      (after : ∀ list, .join list ∉ acted.progress.frames) : Joins s s' thread :=
    .aside crew (fun list stands => before list (acting.symm.trans stands)) fun list stands =>
      after list (trace.join_of_acting acted stands)
  cases acted.move.shuts with
  | keep none _ aloof =>
    refine aside (by rw [shared, aloof.crew]) (fun list stands => ?_) fun list mem => ?_
    · cases none _ (List.mem_of_head? stands)
    · cases aloof.frames _ mem
  | skip top _ p => exact aside (by rw [shared, p]) (by simp [top]) (by simp [p])
  | raise top p => exact aside (by rw [shared, p]; rfl) (by simp [top]) (by simp [p, raiseFlagStep])
  | ring top _ crew frames => exact aside (by rw [shared, crew]) (by simp [top]) (by simp [frames])
  | begin top _ p =>
    refine aside (by rw [shared, p]) (by simp [top]) fun list mem => ?_
    rw [p] at mem
    dsimp only at mem
    split at mem <;> simp at mem
  | idle top _ p => exact aside (by rw [shared, p]) (by simp [top]) (by simp [p])
  | close top p =>
    refine aside (by rw [shared, p]; rfl) (by simp [top]) fun list mem => ?_
    rw [p] at mem
    rcases List.mem_append.1 mem with refusal | after
    · cases Item.unshutting_refuse_all _ _ refusal
    · simp at after
  | lock top free p =>
    refine .lock (by rw [acting, top]; rfl) free (by rw [shared, p]; rfl) ?_
    rw [acted.acting', p]
    rfl
  | wait worker rest top ended p =>
    refine .wait worker rest (by rw [acting, top]; rfl) ended (by rw [shared, p]) ?_
    rw [acted.acting', p]
    rfl
  | unlock top p =>
    refine .unlock (by rw [acting, top]; rfl) (by rw [shared, p]) fun list stands => ?_
    have mem := trace.join_of_acting acted stands
    rw [p] at mem
    cases mem

end Trace

theorem Locked.not_join_of_free (locked : Locked s) (free : s.shared.crew.owner = none)
    (thread : ThreadId) (list : List ThreadId) : s.acting thread ≠ some (.join list) := by
  intro stands
  have owns := (locked.owner thread).2 ⟨list, stands⟩
  rw [free] at owns
  cases owns

/-- One thread waits for workers at a time. -/
theorem Locked.alone (locked : Locked s) {thread other : ThreadId} {list list' : List ThreadId}
    (stands : s.acting thread = some (.join list)) (stands' : s.acting other = some (.join list')) :
    other = thread := by
  have owns := (locked.owner thread).2 ⟨list, stands⟩
  rw [(locked.owner other).2 ⟨list', stands'⟩] at owns
  exact Option.some.inj owns

theorem Locked.step {thread : ThreadId} {choice : Choice} (locked : Locked s)
    (trace : Trace client (State.start workers world kept threads) history s)
    (acted : Acted client s s' thread choice) : Locked s' := by
  have up (owned : s.shared.crew.owner ≠ none) : s'.shared.flag = true :=
    flag_of_acted acted (locked.flag owned)
  have other {k : ThreadId} (different : k ≠ thread) :
      (∃ list, s'.acting k = some (.join list)) ↔ s.shared.crew.owner = some k :=
    Iff.trans (exists_congr fun _ => acted.acting_join different) (locked.owner k).symm
  have own (k : ThreadId) : k = thread ∨ k ≠ thread := Decidable.em _
  cases trace.joins_of_acted acted with
  | aside crew before after =>
    refine ⟨fun k => ?_, fun owned => up (crew ▸ owned)⟩
    rw [crew]
    rcases own k with rfl | different
    · rw [locked.owner]
      exact ⟨fun ⟨list, stands⟩ => absurd stands (before list),
        fun ⟨list, stands⟩ => absurd stands (after list)⟩
    · exact (other different).symm
  | lock stands free crew joins =>
    refine ⟨fun k => ?_, fun _ => flag_of_acted acted (trace.flag_of_lockCrew stands)⟩
    rw [crew]
    rcases own k with rfl | different
    · exact ⟨fun _ => ⟨_, joins⟩, fun _ => rfl⟩
    · rw [other different, free]
      exact ⟨fun eq => absurd (Option.some.inj eq).symm different,
        fun eq => absurd eq (Option.some_ne_none k).symm⟩
  | wait worker rest stands _ crew joins =>
    have mine := (locked.owner _).2 ⟨_, stands⟩
    refine ⟨fun k => ?_, fun _ => up (by rw [mine]; exact Option.some_ne_none _)⟩
    rw [crew]
    rcases own k with rfl | different
    · exact ⟨fun _ => ⟨_, joins⟩, fun _ => mine⟩
    · exact (other different).symm
  | unlock stands crew after =>
    have mine := (locked.owner _).2 ⟨_, stands⟩
    refine ⟨fun k => ?_, fun owned => absurd (by rw [crew]) owned⟩
    rw [crew]
    rcases own k with rfl | different
    · exact ⟨fun eq => absurd eq (Option.some_ne_none _).symm,
        fun ⟨list, stands⟩ => absurd stands (after list)⟩
    · rw [other different, mine]
      exact ⟨fun eq => absurd eq (Option.some_ne_none k).symm,
        fun eq => absurd (Option.some.inj eq).symm different⟩

theorem Trace.locked (trace : Trace client (State.start workers world kept threads) history s) :
    Locked s := by
  refine trace.keeps (fun _ s => Locked s) ?_ fun before e moment ih => ?_
  · refine ⟨fun thread => ⟨fun owns => ?_, fun ⟨list, stands⟩ => ?_⟩, fun owned => ?_⟩
    · exact absurd owns (Option.some_ne_none thread).symm
    · exact absurd stands (not_join_of_start list)
    · exact absurd rfl owned
  · obtain ⟨acted⟩ := step_cases moment.taken
    exact ih.step moment.trace acted

/-! ## The thread that takes the list -/

/-- The thread that acts takes the list of all workers. -/
def Takes (workers : Nat) (beat : Beat W) : Prop :=
  beat.s.acting beat.thread = some .lockCrew ∧ beat.s.shared.crew.workers = List.range workers

/-- A thread has taken the list of workers: all workers but that thread itself have ended, or
it is still to wait for them. -/
structure RollCall (workers : Nat) (s : State W) (taker : ThreadId) : Prop where
  empty : s.shared.crew.workers = []
  joins : ∀ thread list, s.acting thread = some (.join list) → ∀ worker ∈ list,
    thread = taker ∧ worker < workers
  waits : ∀ worker < workers, worker ≠ taker → s.isDone worker = true ∨
    ∃ list, s.acting taker = some (.join list) ∧ worker ∈ list

/-- The list of workers is whole, or one thread has taken it. -/
inductive Mustered (workers : Nat) (log : List (Beat W)) (s : State W) : Prop
  | whole : s.shared.crew.workers = List.range workers →
      (∀ thread list, s.acting thread ≠ some (.join list)) → Mustered workers log s
  | taken (beat : Beat W) : beat ∈ log → Takes workers beat →
      RollCall workers s beat.thread → Mustered workers log s

theorem done_of_acted {thread : ThreadId} {choice : Choice}
    (acted : Acted client s s' thread choice) {worker : ThreadId}
    (there : worker < s.threads.length) (ended : s.isDone worker = true) :
    s'.isDone worker = true := by
  have found := List.getElem?_eq_getElem there
  have different : worker ≠ thread := by
    rintro rfl
    obtain ⟨frame, above, top⟩ := acted.move.top_ne_nil
    rw [isDone, acted.actor_eq] at ended
    simp [acted.stack, top] at ended
  rw [isDone, acted.stays different found]
  rwa [isDone, found] at ended

section Taking

variable {thread taker : ThreadId} {choice : Choice}
  (trace : Trace client (State.start workers world kept threads) history s)
  (acted : Acted client s s' thread choice)

include acted

theorem acting_join_of_aside (before : ∀ list, s.acting thread ≠ some (.join list))
    (after : ∀ list, s'.acting thread ≠ some (.join list)) {k : ThreadId} {list : List ThreadId} :
    s'.acting k = some (.join list) ↔ s.acting k = some (.join list) := by
  by_cases own : k = thread
  · subst own
    exact iff_of_false (after list) (before list)
  · exact acted.acting_join own

/-- Where nobody waited for workers, only the thread that takes the list does. -/
theorem join_of_lock (nobody : ∀ k list, s.acting k ≠ some (.join list))
    {taken : List ThreadId} (joins : s'.acting thread = some (.join taken)) {k : ThreadId}
    {list : List ThreadId} (stands : s'.acting k = some (.join list)) :
    k = thread ∧ list = taken := by
  by_cases own : k = thread
  · subst own
    rw [joins] at stands
    cases stands
    exact ⟨rfl, rfl⟩
  · exact absurd ((acted.acting_join own).1 stands) (nobody k list)

theorem rollCall_of_lock (whole : s.shared.crew.workers = List.range workers)
    (nobody : ∀ k list, s.acting k ≠ some (.join list)) (empty : s'.shared.crew.workers = [])
    (joins : s'.acting thread = some (.join s.shared.crew.workers)) :
    RollCall workers s' thread := by
  rw [whole] at joins
  refine ⟨empty, fun k list stands worker mem => ?_, fun worker bound _ => ?_⟩
  · obtain ⟨rfl, rfl⟩ := join_of_lock acted nobody joins stands
    exact ⟨rfl, List.mem_range.1 mem⟩
  · exact .inr ⟨_, joins, List.mem_range.2 bound⟩

include trace

theorem RollCall.step (call : RollCall workers s taker) : RollCall workers s' taker := by
  have ended {worker : ThreadId} (bound : worker < workers) (done : s.isDone worker = true) :
      s'.isDone worker = true :=
    done_of_acted acted (trace.lt_length_of_lt bound) done
  cases trace.joins_of_acted acted with
  | aside crew before after =>
    have same {k : ThreadId} {list : List ThreadId} :
        s'.acting k = some (.join list) ↔ s.acting k = some (.join list) :=
      acting_join_of_aside acted before after
    refine ⟨by rw [crew, call.empty], fun k list stands => call.joins k list (same.1 stands),
      fun worker bound other => ?_⟩
    rcases call.waits worker bound other with done | ⟨list, stands, waits⟩
    · exact .inl (ended bound done)
    · exact .inr ⟨list, same.2 stands, waits⟩
  | lock stands free crew joins =>
    have nobody (k : ThreadId) (list : List ThreadId) := trace.locked.not_join_of_free free k list
    refine ⟨by rw [crew], fun k list stands worker mem => ?_, fun worker bound other => ?_⟩
    · obtain ⟨rfl, rfl⟩ := join_of_lock acted nobody joins stands
      rw [call.empty] at mem
      cases mem
    · rcases call.waits worker bound other with done | ⟨list, stands, _⟩
      · exact .inl (ended bound done)
      · exact absurd stands (nobody _ _)
  | wait first rest stands reached crew joins =>
    obtain ⟨rfl, _⟩ := call.joins thread _ stands first List.mem_cons_self
    refine ⟨by rw [crew, call.empty], fun k list stands' worker mem => ?_,
      fun worker bound other => ?_⟩
    · by_cases own : k = thread
      · subst own
        rw [joins] at stands'
        cases stands'
        exact call.joins k _ stands worker (List.mem_cons_of_mem _ mem)
      · exact call.joins k _ ((acted.acting_join own).1 stands') worker mem
    · rcases call.waits worker bound other with done | ⟨list, stands', waiting⟩
      · exact .inl (ended bound done)
      · rw [stands] at stands'
        cases stands'
        rcases List.mem_cons.1 waiting with rfl | later
        · rcases reached with own | done
          · exact absurd own other
          · exact .inl (ended bound done)
        · exact .inr ⟨rest, joins, later⟩
  | unlock stands crew after =>
    have nobody (k : ThreadId) (list : List ThreadId) : s'.acting k ≠ some (.join list) := by
      intro stands'
      by_cases own : k = thread
      · subst own
        exact after list stands'
      · exact own (trace.locked.alone stands ((acted.acting_join own).1 stands'))
    refine ⟨by rw [crew, call.empty], fun k list stands' => absurd stands' (nobody k list),
      fun worker bound other => ?_⟩
    rcases call.waits worker bound other with done | ⟨list, stands', waiting⟩
    · exact .inl (ended bound done)
    · obtain rfl := trace.locked.alone stands stands'
      rw [stands] at stands'
      cases stands'
      cases waiting

theorem Mustered.step (mustered : Mustered workers log s) :
    Mustered workers (log ++ [⟨s, thread⟩]) s' := by
  cases mustered with
  | taken beat mem takes call =>
    exact .taken beat (List.mem_append_left _ mem) takes (call.step trace acted)
  | whole list nobody =>
    cases trace.joins_of_acted acted with
    | aside crew before after =>
      exact .whole (by rw [crew, list]) fun k list stands =>
        nobody k list ((acting_join_of_aside acted before after).1 stands)
    | lock stands _ crew joins =>
      exact .taken ⟨s, thread⟩ (List.mem_append_right _ (List.mem_singleton_self _))
        ⟨stands, list⟩ (rollCall_of_lock acted list nobody (by rw [crew]) joins)
    | wait first rest stands => exact absurd stands (nobody _ _)
    | unlock stands => exact absurd stands (nobody _ _)

end Taking

theorem Log.mustered (run : Log client (State.start workers world kept threads) log s) :
    Mustered workers log s := by
  induction run with
  | start => exact .whole rfl fun thread list => not_join_of_start list
  | step run taken ih =>
    obtain ⟨acted⟩ := step_cases taken
    exact ih.step run.trace acted

end State
end Strands
