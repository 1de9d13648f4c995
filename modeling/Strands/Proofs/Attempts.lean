/-
A future is placed at most once.

A unit can be placed for a future by a client, any number of times and from any thread, by
the invocation that got the future, once its arguments are complete, and by the scheduler
itself.  All of them begin with an attempt to claim the future, and `attemptsOf` lists the
attempts of a run in order.  `Log.places_once` says that the first of them gets past the
claim, that every other is told that the future was scheduled already and changes nothing,
whether the scheduler is shut down or not, and that no unit but that of the first is ever
started, and that once at most.
-/
import Strands.Proofs.Turns
import Strands.Proofs.Units

namespace Strands

variable {W : Type}

/-- The attempt to place a unit for a future that a step makes, with what it comes to. -/
def Beat.attempt (f : FutureId) (beat : Beat W) : Option (Placing W × Except ScheduleError Unit) :=
  match beat.s.acting beat.thread with
  | some (.claim p) => if p.future = f then some (p, beat.s.shared.claimResult f) else none
  | _ => none

/-- The attempts of a run to place units for a future, in order. -/
def attemptsOf (f : FutureId) (log : List (Beat W)) :
    List (Placing W × Except ScheduleError Unit) :=
  log.filterMap (Beat.attempt f)

/-- The code that a thread runs asks to place a unit for a future that its client has. -/
def Beat.Schedules (beat : Beat W) (p : Placing W) (role : Role W) (next : Reply → Code W)
    (below : List (Frame W)) : Prop :=
  ∃ work, p.task = .work work ∧ p.asker = .client p.future ∧
    beat.s.shared.hasHandle p.future = true ∧
    beat.s.stackOf beat.thread = .running role (.schedule p.place work p.future next) :: below

section Attempts

variable {s : Shared W} {f : FutureId}

theorem Shared.claimResult_cases (s : Shared W) (f : FutureId) :
    (s.claimResult f = .ok () ∧ ∃ u, s.futures.get? f = some u ∧ u.claimed = false) ∨
    (s.claimResult f = .error (.alreadyScheduled f) ∧
      ∀ u, s.futures.get? f = some u → u.claimed = true) := by
  cases found : s.futures.get? f with
  | none => exact .inr ⟨by simp [claimResult, found], by simp⟩
  | some u =>
    obtain ⟨strand, returnType, state, callback, notified, claimed, kept⟩ := u
    cases claimed with
    | true => exact .inr ⟨by simp [claimResult, found], by simp⟩
    | false => exact .inl ⟨by simp [claimResult, found], _, rfl, rfl⟩

theorem claimStep_eq (s : Shared W) (p : Placing W) :
    claimStep s p =
      match s.claimResult p.future with
      | .ok () => { shared := s.modifyFuture p.future Future.claim, frames := [.enter p] }
      | .error e => { shared := s, frames := p.asker.answer (.error e) } := by
  cases found : s.futures.get? p.future with
  | none => simp [claimStep, Shared.claimResult, found]
  | some u =>
    obtain ⟨strand, returnType, state, callback, notified, claimed, kept⟩ := u
    cases claimed <;> simp [claimStep, Shared.claimResult, found]

theorem claimStep_of_free {p : Placing W} {u : Future W} (found : s.futures.get? p.future = some u)
    (free : u.claimed = false) : claimStep s p =
      { shared := s.modifyFuture p.future Future.claim, frames := [.enter p] } := by
  rcases s.claimResult_cases p.future with ⟨result, _⟩ | ⟨_, claimed⟩
  · rw [claimStep_eq, result]
  · rw [claimed u found] at free
    cases free

theorem claimStep_of_claimed {p : Placing W} {u : Future W}
    (found : s.futures.get? p.future = some u) (claimed : u.claimed = true) : claimStep s p =
      { shared := s, frames := p.asker.answer (.error (.alreadyScheduled p.future)) } := by
  rcases s.claimResult_cases p.future with ⟨_, v, there, free⟩ | ⟨result, _⟩
  · rw [Option.some.inj (found.symm.trans there), free] at claimed
    cases claimed
  · rw [claimStep_eq, result]

theorem attemptsOf_append (f : FutureId) (a b : List (Beat W)) :
    attemptsOf f (a ++ b) = attemptsOf f a ++ attemptsOf f b := List.filterMap_append

theorem attemptsOf_one (f : FutureId) (beat : Beat W) :
    attemptsOf f [beat] = (beat.attempt f).toList := by
  cases attempt : beat.attempt f <;> simp [attemptsOf, attempt]

theorem Deed.of_startOf {δ : Deed W} {task : Task W} {code : Code W}
    (starts : δ.startOf f = some (task, code)) :
    ∃ job : Job W, δ = .started job code ∧ job.future = f ∧ job.task = task := by
  cases δ with
  | started job first =>
    simp only [startOf] at starts
    split at starts <;> cases starts
    exact ⟨job, rfl, ‹_›, rfl⟩
  | _ => cases starts

theorem Beat.attempt_eq {beat : Beat W} {p : Placing W}
    (stands : beat.s.acting beat.thread = some (.claim p)) :
    beat.attempt p.future = some (p, beat.s.shared.claimResult p.future) := by
  simp [attempt, stands]

theorem Beat.acting_of_attempt {beat : Beat W} {p : Placing W}
    {result : Except ScheduleError Unit} (attempt : beat.attempt f = some (p, result)) :
    beat.s.acting beat.thread = some (.claim p) ∧ p.future = f ∧
      result = beat.s.shared.claimResult f := by
  unfold Beat.attempt at attempt
  split at attempt
  · rename_i q stands
    split at attempt
    · rename_i own
      cases attempt
      exact ⟨stands, own, rfl⟩
    · cases attempt
  · cases attempt

theorem Frame.deed_of_claim (client : Client W) (s : Shared W) (p : Placing W) :
    (Frame.claim p).deed client s =
      match s.claimResult p.future with
      | .ok () => .bound p
      | .error _ => .other := by
  cases found : s.futures.get? p.future with
  | none => simp [deed, Shared.claimResult, found]
  | some u =>
    obtain ⟨strand, returnType, state, callback, notified, claimed, kept⟩ := u
    cases claimed <;> simp [deed, Shared.claimResult, found]

theorem Frame.of_bound {client : Client W} {frame : Frame W} {p : Placing W}
    (bound : frame.deed client s = .bound p) : frame = .claim p := by
  have does := frame.does client s
  rw [bound] at does
  cases does with
  | bound => rfl
  | managed managed _ => cases managed

end Attempts

namespace State

variable {client : Client W} {workers : Nat} {world : W} {kept : List ObjectId}
  {threads : List (Code W)} {s : State W} {history : List Event} {log : List (Beat W)}
  {f : FutureId}

/-- Units are placed for futures that were made. -/
theorem Trace.exists_record_of_claim
    (trace : Trace client (State.start workers world kept threads) history s)
    {t : Thread W} (mem : t ∈ s.threads) {p : Placing W} (inStack : .claim p ∈ t.stack) :
    ∃ u, s.shared.futures.get? p.future = some u := by
  have held : Stake.attempt p.future p.asker.isClient ∈ s.stakes :=
    stakes_of_mem mem inStack (List.mem_singleton.2 rfl)
  cases asks : p.asker.isClient with
  | true =>
    rw [asks] at held
    have attempts := weigh_pos_of_mem (w := Stake.attempts p.future) held (one_self _)
    have law := trace.request_law p.future
    have requests : 0 < tally (Event.requests p.future) history := by omega
    obtain ⟨e, mem, pos⟩ := tally_pos requests
    obtain rfl := Event.of_requests pos
    have handed := tally_pos_of_mem (n := Event.hands p.future)
      (trace.recorded.requested p.future mem) (one_self _)
    have reply := trace.reply_law p.future
    have births := congrArg (tally · history) (funext (Event.births_eq p.future))
    simp only [tally_add] at births
    exact trace.exists_record p.future (by rw [births]; omega)
  | false =>
    rw [asks] at held
    have chain := weigh_pos_of_mem
      (w := fun stake => stake.chain p.future + stake.work p.future) held
      (by simp [Stake.chain, Stake.work])
    have law := trace.course_law p.future
    exact trace.exists_record_of_course p.future (by omega)

section

variable {s' : State W} {thread : ThreadId} {choice : Choice}
  (taken : s.step client thread choice = some s')

include taken

theorem isClaimed_step (f : FutureId) : s'.shared.futures.isClaimed f =
    (s.shared.futures.isClaimed f || (s.event client thread).claims f == 1) := by
  unfold Futures.isClaimed
  rcases (step_accounts taken).futures.get? f with ⟨born, none, u, found, fresh, _⟩ | ⟨_, same⟩
  · have unclaimed : (s.event client thread).claims f = 0 := by
      generalize s.event client thread = e at born
      cases e <;> first | rfl | cases born
    simp [none, found, fresh.claimed, unclaimed]
  · rw [same]
    rcases (step_accounts taken).futures.claims_cases f with none | ⟨claims, _, u, found, unclaimed⟩
    · cases s.shared.futures.get? f <;> simp [none, Event.update_claimed]
    · simp [claims, found, Event.update_claimed]

theorem claims_of_no_attempt (none : (⟨s, thread⟩ : Beat W).attempt f = none) :
    (s.event client thread).claims f = 0 := by
  by_contra claims
  obtain ⟨byClient, behalf, event⟩ := Event.of_claims (Nat.pos_of_ne_zero claims)
  obtain ⟨acted⟩ := step_cases taken
  have tells := tells_of_acted acted
  rw [event] at tells
  cases deed : (⟨s, thread⟩ : Beat W).deed client with
  | bound p =>
    rw [deed_of_acted acted] at deed
    rw [deed_of_acted acted, deed] at tells
    have stands := acted.acting
    have move := acted.move
    generalize acted.progress = q at move
    generalize acted.top = top at move deed stands
    cases move with
    | act moved =>
      obtain rfl := Frame.of_bound deed
      cases tells
      rw [Beat.attempt_eq stands] at none
      cases none
    | _ => cases deed
  | _ =>
    rw [deed] at tells
    cases tells <;> rename_i bare <;> cases bare

/-- An attempt that succeeds binds its unit, and one that does not claims nothing. -/
theorem claims_of_attempt {p : Placing W} {result : Except ScheduleError Unit}
    (attempt : (⟨s, thread⟩ : Beat W).attempt f = some (p, result)) :
    (result = .ok () ∧ s.shared.futures.isClaimed f = false ∧
      (s.event client thread).claims f = 1 ∧
      (⟨s, thread⟩ : Beat W).deed client = .bound p) ∨
    (result = .error (.alreadyScheduled f) ∧ (s.event client thread).claims f = 0 ∧
      ∀ u, s.shared.futures.get? f = some u → u.claimed = true) := by
  obtain ⟨stands, rfl, rfl⟩ := Beat.acting_of_attempt attempt
  rcases s.shared.claimResult_cases p.future with ⟨result, u, found, unclaimed⟩ | ⟨result, claimed⟩
  · obtain ⟨acted⟩ := step_cases taken
    have deed : (⟨s, thread⟩ : Beat W).deed client = .bound p := by
      rw [deed_of_acted acted, acted.top_of_acting stands (fun _ eq => by cases eq), Move.deed,
        Frame.deed_of_claim, result]
    have tells := tells_of_acted acted
    rw [deed] at tells
    refine .inl ⟨result, by simp [Futures.isClaimed, found, unclaimed], ?_, deed⟩
    generalize s.event client thread = e at tells
    cases tells
    exact one_self p.future
  · refine .inr ⟨result, ?_, claimed⟩
    rcases (step_accounts taken).futures.claims_cases p.future with
      none | ⟨_, _, u, found, unclaimed⟩
    · exact none
    · rw [claimed u found] at unclaimed
      cases unclaimed

end

section

variable (run : Log client (State.start workers world kept threads) log s)

include run

/-- What a run's attempts say of the future, and of its unit. -/
theorem Log.first_wins (f : FutureId) : FirstWins (.alreadyScheduled f) (attemptsOf f log) ∧
    (attemptsOf f log = [] ↔ s.shared.futures.isClaimed f = false) ∧
    ∀ a ∈ (attemptsOf f log).head?, .bound a.1 ∈ deeds client log := by
  induction run with
  | start =>
    refine ⟨.untried, ⟨fun _ => ?_, fun _ => rfl⟩, fun _ mem => by cases mem⟩
    cases f <;> rfl
  | @step log s s' thread choice run taken ih =>
    obtain ⟨wins, untried, bound⟩ := ih
    rw [attemptsOf_append, attemptsOf_one, deeds_append, isClaimed_step taken]
    cases attempt : (⟨s, thread⟩ : Beat W).attempt f with
    | none =>
      rw [claims_of_no_attempt taken attempt, Option.toList_none, List.append_nil]
      exact ⟨wins, by simpa using untried, fun a mem => List.mem_append_left _ (bound a mem)⟩
    | some a =>
      obtain ⟨p, result⟩ := a
      rw [Option.toList_some]
      rcases claims_of_attempt taken attempt with
        ⟨rfl, unclaimed, claims, deed⟩ | ⟨rfl, claims, claimed⟩
      · -- No attempt came before one that succeeds.
        rw [untried.2 unclaimed, claims]
        refine ⟨.won p [] (by simp), by simp, fun a mem => List.mem_append_right _ ?_⟩
        obtain rfl : (p, .ok ()) = a := by simpa using mem
        rw [deeds_cons, deed]
        exact List.mem_cons_self
      · -- The future was made, so an attempt came before one that does not.
        obtain ⟨stands, rfl, _⟩ := Beat.acting_of_attempt attempt
        obtain ⟨t, below, there, stack⟩ := exists_of_acting stands
        obtain ⟨u, found⟩ := run.trace.exists_record_of_claim (List.mem_of_getElem? there)
          (by rw [stack]; exact List.mem_cons_self)
        have claimed : s.shared.futures.isClaimed p.future = true := by
          simp [Futures.isClaimed, found, claimed u found]
        have tried : attemptsOf p.future log ≠ [] := fun none => by
          rw [untried.1 none] at claimed
          cases claimed
        refine ⟨wins.snoc tried p, by simp [claimed], fun a mem => ?_⟩
        rw [List.head?_append_of_ne_nil _ tried] at mem
        exact List.mem_append_left _ (bound a mem)

/-- A claim comes to success if no attempt came before it. -/
theorem Log.claimResult_eq {thread : ThreadId} {p : Placing W}
    (stands : s.acting thread = some (.claim p)) : s.shared.claimResult p.future =
      if attemptsOf p.future log = [] then .ok () else .error (.alreadyScheduled p.future) := by
  obtain ⟨_, untried, _⟩ := run.first_wins p.future
  obtain ⟨t, below, there, stack⟩ := exists_of_acting stands
  obtain ⟨u, found⟩ := run.trace.exists_record_of_claim (List.mem_of_getElem? there)
    (by rw [stack]; exact List.mem_cons_self)
  rcases s.shared.claimResult_cases p.future with ⟨result, v, there, unclaimed⟩ | ⟨result, claimed⟩
  · rw [result, if_pos (untried.2 (by simp [Futures.isClaimed, there, unclaimed]))]
  · rw [result, if_neg fun none => ?_]
    have unclaimed := untried.1 none
    simp [Futures.isClaimed, found, claimed u found] at unclaimed

/-- What a claim leaves depends on whether an attempt came before it. -/
theorem Log.claim_step {thread : ThreadId} {p : Placing W} {below : List (Frame W)}
    (stack : s.stackOf thread = .claim p :: below) (choice : Choice) :
    ∃ s', s.step client thread choice = some s' ∧
      ((attemptsOf p.future log = [] ∧
          s'.shared = s.shared.modifyFuture p.future Future.claim ∧
          s'.stackOf thread = .enter p :: below) ∨
        (attemptsOf p.future log ≠ [] ∧ s'.shared = s.shared ∧
          s'.stackOf thread =
            p.asker.answer (.error (.alreadyScheduled p.future)) ++ below)) := by
  obtain ⟨t, there, eq⟩ := exists_of_stackOf stack
  have result := run.claimResult_eq (acting_eq there eq)
  obtain ⟨_, s', taken, shared, after⟩ := can_step client choice
    (p := fun _ => claimStep s.shared p) stack (fun _ eq => by cases eq) fun _ => rfl
  refine ⟨s', taken, ?_⟩
  rw [claimStep_eq, result] at shared after
  by_cases first : attemptsOf p.future log = []
  · rw [if_pos first] at shared after
    exact .inl ⟨first, shared, after⟩
  · rw [if_neg first] at shared after
    exact .inr ⟨first, shared, after⟩

theorem Log.hears_of_claim {thread : ThreadId} {p : Placing W} {held : Holding} {role : Role W}
    {next : Reply → Code W} {below : List (Frame W)} (asks : p.asker = .client p.future)
    (stack : s.stackOf thread = .claim p :: .letGo held :: .waiting role next :: below)
    (late : attemptsOf p.future log ≠ []) :
    Hears client thread (next (.placed p.future (.error (.alreadyScheduled p.future)))) role below
      s := by
  have turnedAway {later : List (Beat W)} {here : State W} (run' : Log client s later here)
      (idles : Idles thread later) (choice : Choice) :
      ∃ s', here.step client thread choice = some s' ∧ s'.shared = here.shared ∧
        s'.stackOf thread = .deliver (.placed p.future (.error (.alreadyScheduled p.future))) ::
          .letGo held :: .waiting role next :: below := by
    obtain ⟨s', taken, first | ⟨_, shared, after⟩⟩ :=
      (run.append run').claim_step (run'.stackOf_of_idles idles stack) choice
    · rw [attemptsOf_append, List.append_eq_nil_iff] at first
      exact absurd first.1.1 late
    · rw [asks] at after
      exact ⟨s', taken, shared, after⟩
  refine .steps (fun later here choice run' idles => ?_)
    fun later here choice next run' idles taken => ?_
  · obtain ⟨s', taken, shared, _⟩ := turnedAway run' idles choice
    exact ⟨s', taken, shared⟩
  · obtain ⟨s', taken', _, after⟩ := turnedAway run' idles choice
    obtain rfl := Option.some.inj (taken.symm.trans taken')
    exact hears_of_letGo (fun _ => rfl) after

theorem Log.bound_of_first {a : Placing W × Except ScheduleError Unit}
    (first : (attemptsOf f log).head? = some a) :
    a.1.future = f ∧ .bound a.1 ∈ deeds client log := by
  refine ⟨?_, (run.first_wins f).2.2 a first⟩
  obtain ⟨beat, _, attempt⟩ := List.mem_filterMap.1 (List.mem_of_head? first)
  exact (Beat.acting_of_attempt attempt).2.1

theorem Log.exists_first_of_bound {p : Placing W} (bound : .bound p ∈ deeds client log) :
    ∃ a, (attemptsOf p.future log).head? = some a := by
  obtain ⟨e, mem, tells⟩ := run.event_of_deed bound
  obtain ⟨context, rfl⟩ : ∃ context, e = .claimed p.future p.asker.isClient context := by
    cases tells
    exact ⟨_, rfl⟩
  have claims := tally_pos_of_mem (n := Event.claims p.future) mem (one_self _)
  rw [run.trace.recorded.claims] at claims
  cases attempts : attemptsOf p.future log with
  | nil =>
    rw [(run.first_wins p.future).2.1.1 attempts] at claims
    cases claims
  | cons a others => exact ⟨a, rfl⟩

/-- Only the unit of the first attempt is started, and that once at most. -/
theorem Log.startsOf_sublist (f : FutureId) :
    (startsOf client log f).Sublist ((attemptsOf f log).head?.toList.map fun a =>
      (a.1.task, a.1.task.start client (s.shared.futures.strandOf f))) := by
  have once := run.trace.runs_le f
  have length := run.length_startsOf f
  cases starts : startsOf client log f with
  | nil => exact List.nil_sublist _
  | cons start others =>
    rw [starts, List.length_cons] at length
    obtain rfl : others = [] := List.eq_nil_of_length_eq_zero (by omega)
    obtain ⟨δ, mem, told⟩ := List.mem_filterMap.1
      (show start ∈ startsOf client log f by rw [starts]; exact List.mem_cons_self)
    obtain ⟨task, code⟩ := start
    obtain ⟨job, rfl, rfl, rfl⟩ := Deed.of_startOf told
    obtain ⟨q, bound, rfl⟩ := run.vouched.deeds _ mem
    obtain ⟨_, rfl⟩ := run.named.started _ _ mem
    obtain ⟨a, first⟩ := run.exists_first_of_bound bound
    obtain ⟨own, bound'⟩ := run.bound_of_first first
    obtain rfl := run.bound_unique bound' bound own
    rw [show a.1.job.future = a.1.future from rfl, first]
    exact List.Sublist.refl _

/-- A future is placed at most once.  The first attempt to place a unit for it gets past the
claim.  Every other attempt leaves all that is shared as it was and is told that the future
was scheduled already; if a client made it, the client's code goes on with that reply.  No
unit is started but that of the first attempt. -/
theorem Log.places_once (f : FutureId) :
    FirstWins (.alreadyScheduled f) (attemptsOf f log) ∧
    (startsOf client log f).Sublist ((attemptsOf f log).head?.toList.map fun a =>
      (a.1.task, a.1.task.start client (s.shared.futures.strandOf f))) ∧
    (∀ thread p below, s.stackOf thread = .claim p :: below → p.future = f → ∀ choice,
      ∃ s', s.step client thread choice = some s' ∧
        ((attemptsOf f log = [] ∧ s'.shared = s.shared.modifyFuture f Future.claim ∧
            s'.stackOf thread = .enter p :: below) ∨
          (attemptsOf f log ≠ [] ∧ s'.shared = s.shared ∧
            s'.stackOf thread = p.asker.answer (.error (.alreadyScheduled f)) ++ below))) ∧
    (∀ before call idle p role next below, log = before ++ call :: idle →
      call.Schedules p role next below → p.future = f → Idles call.thread idle →
      (∀ choice, ∃ s', call.s.step client call.thread choice = some s' ∧
        s'.shared = call.s.shared) ∧
      s.stackOf call.thread = .claim p :: .letGo p.place.held :: .waiting role next :: below ∧
        (attemptsOf f log ≠ [] →
          Hears client call.thread (next (.placed f (.error (.alreadyScheduled f)))) role below
            s)) := by
  refine ⟨(run.first_wins f).1, run.startsOf_sublist f, ?_, ?_⟩
  · rintro thread p below stack rfl choice
    exact run.claim_step stack choice
  · rintro before call idle p role next below rfl ⟨work, task, asks, holds, code⟩ rfl idles
    have asking (choice : Choice) : ∃ s', call.s.step client call.thread choice = some s' ∧
        s'.shared = call.s.shared ∧ s'.stackOf call.thread =
          .claim p :: .letGo p.place.held :: .waiting role next :: below := by
      obtain ⟨place, _, future, _⟩ := p
      obtain rfl : _ = Task.work work := task
      obtain rfl : _ = Asker.client future := asks
      obtain ⟨_, s', taken, shared, after⟩ := can_step client choice code
        (fun _ eq => by cases eq) fun _ => rfl
      rw [if_pos holds] at after
      exact ⟨s', taken, shared, after⟩
    obtain ⟨_, choice, s', taken, later⟩ := run.split
    obtain ⟨s'', taken', _, stack⟩ := asking choice
    obtain rfl := Option.some.inj (taken.symm.trans taken')
    have now := later.stackOf_of_idles idles stack
    refine ⟨fun choice => ?_, now, run.hears_of_claim asks now⟩
    obtain ⟨s', taken, shared, _⟩ := asking choice
    exact ⟨s', taken, shared⟩

end

end State

namespace Sample

/-- A client that makes a call and schedules two units of its own for the call's future, while
the call waits for its argument. -/
def callAndTwoUnits : Code Unit :=
  invoke fun f => schedule .free f <| schedule (.group 2) f done

end Sample

namespace State

open Sample

def twiceScheduledStart : State Unit := State.start 1 () [1, 2] [callAndTwoUnits]

def twiceScheduledTurns : List ThreadId := List.replicate 60 1 ++ List.replicate 80 0

def twiceScheduledLog : List (Beat Unit) :=
  twiceScheduledStart.beats (client value) twiceScheduledTurns

/-- The client's second unit and the call itself are turned away, and nothing but the client's
first unit is started. -/
theorem places_once_twiceScheduled :
    (∃ p others, attemptsOf 1 twiceScheduledLog = (p, .ok ()) :: others ∧ others.length = 2 ∧
      ∀ attempt ∈ others, attempt.2 = .error (.alreadyScheduled 1)) ∧
    (startsOf (client value) twiceScheduledLog 1).length ≤ 1 := by
  have run : Log (client value) twiceScheduledStart twiceScheduledLog _ := log_beats _ _ _
  obtain ⟨wins, starts, _, _⟩ := run.places_once 1
  have three : (attemptsOf 1 twiceScheduledLog).length = 3 := by decide +kernel
  refine ⟨?_, Nat.le_trans starts.length_le ?_⟩
  · generalize attemptsOf 1 twiceScheduledLog = attempts at wins three
    cases wins with
    | untried => cases three
    | won p others losers => exact ⟨p, others, rfl, by simpa using three, losers⟩
  · cases attemptsOf 1 twiceScheduledLog <;> simp

end State
end Strands
