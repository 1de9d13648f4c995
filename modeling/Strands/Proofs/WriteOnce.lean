/-
A future is written once.

Any number of threads may be about to complete a future, and others may look at it or wait
for it meanwhile, also in its own callback.  Completing it takes two steps with the callback
between them: at the first the outcome is stored, at the second the future is marked as
notified.  `Log.writes_once` follows a run in which any threads act in any order, from a
state in which the future has no outcome: the first completion succeeds, its outcome is the
future's from then on and the callback is notified of it, every other completion is told that
it comes late and changes nothing, and whoever waits hears the outcome once the callback is
over and not before.
-/
import Strands.Proofs.Pipeline
import Strands.Proofs.Turns

namespace Strands

variable {W : Type}

def Beat.completion (f : FutureId) (beat : Beat W) : Option (Outcome × Except FutureError Unit) :=
  match beat.s.acting beat.thread with
  | some (.settle g outcome) =>
    if g = f then some (outcome, beat.s.shared.settleResult f) else none
  | _ => none

def completionsOf (f : FutureId) (log : List (Beat W)) :
    List (Outcome × Except FutureError Unit) :=
  log.filterMap (Beat.completion f)

def winner (f : FutureId) (log : List (Beat W)) : Option Outcome :=
  (completionsOf f log).head?.map Prod.fst

/-- The future has no outcome, and nobody is about to mark it as notified. -/
structure State.Unwritten (s : State W) (f : FutureId) (callback : Callback W) : Prop where
  record : ∃ u, s.shared.futures.get? f = some u ∧ u.state = none ∧ u.callback = some callback ∧
    u.notified = false
  unannounced : ∀ t ∈ s.threads, .announce f ∉ t.stack

/-- How far the completion of a future has come. -/
inductive Settling (client : Client W) (f : FutureId) (log : List (Beat W)) (s : State W) : Prop
  | unwritten : winner f log = none → .announced f ∉ events client log → Settling client f log s
  /-- The thread that completed the future is busy with the callback. -/
  | notifying (before after : List (Beat W)) (beat : Beat W) (outcome : Outcome)
      (above below : List (Frame W)) :
      log = before ++ beat :: after → completionsOf f before = [] →
      beat.s.stackOf beat.thread = .settle f outcome :: below →
      s.stackOf beat.thread = above ++ .announce f :: below →
      .announced f ∉ events client log → Settling client f log s
  /-- The thread that completed the future found the callback over, and marked the future as
  notified. -/
  | notified (before during after : List (Beat W)) (beat last : Beat W) (outcome : Outcome)
      (below : List (Frame W)) :
      log = before ++ beat :: (during ++ last :: after) → completionsOf f before = [] →
      beat.s.stackOf beat.thread = .settle f outcome :: below → last.thread = beat.thread →
      last.s.stackOf beat.thread = .announce f :: below →
      .announced f ∉ events client (before ++ beat :: during) →
      last.event client = .announced f → Settling client f log s

/-- What a run makes of a future that had no outcome at first. -/
structure WrittenOnce (client : Client W) (f : FutureId) (callback : Callback W)
    (log : List (Beat W)) (s : State W) : Prop where
  /-- Of the completions the first succeeds, and no other. -/
  first : FirstWins (.alreadyCompleted f) (completionsOf f log)
  /-- The outcome of the first completion is the future's state. -/
  state : ∃ u, s.shared.futures.get? f = some u ∧ u.state = winner f log ∧
    (u.notified = true ↔ .announced f ∈ events client log)
  /-- The callback was notified of that outcome and of nothing else. -/
  told : outcomes f (events client log) = (winner f log).toList
  /-- A future is marked as notified by the thread that completed it, once the callback is
  over, be it by returning or by a panic. -/
  settling : Settling client f log s
  /-- A future that is marked as notified has an outcome. -/
  terminal : .announced f ∈ events client log → (winner f log).isSome
  /-- The first completion stores its outcome and notifies the callback, which for a client's
  future is to run the client's code.  Any other changes nothing. -/
  completes : ∀ thread outcome below choice, s.stackOf thread = .settle f outcome :: below →
    ∃ s', s.step client thread choice = some s' ∧
      ((winner f log = none ∧ s'.shared = s.shared.modifyFuture f (·.complete outcome) ∧
          s'.stackOf thread = callback.notify outcome ++ .announce f :: below ∧
          ∀ notify, callback = .client notify → s'.stackOf thread =
            .running (.callback outcome) (notify outcome) :: .announce f :: below) ∨
        (winner f log ≠ none ∧ s'.shared = s.shared ∧ s'.stackOf thread = below))
  /-- Whoever waits hears the outcome when the future is marked as notified, and nothing
  before. -/
  waits : ∀ thread below choice, s.stackOf thread = .awaitFuture f :: below →
    (.announced f ∉ events client log ∧ s.step client thread choice = none) ∨
    (.announced f ∈ events client log ∧ ∃ s' outcome, winner f log = some outcome ∧
      s.step client thread choice = some s' ∧ s'.shared = s.shared ∧
      s'.stackOf thread = .deliver (.outcome (some outcome)) :: below)
  /-- So does whoever waits for a limited time, who may also hear that it is over. -/
  waitsAtMost : ∀ thread milliseconds below choice,
    s.stackOf thread = .awaitFutureAtMost f milliseconds :: below →
    (.announced f ∉ events client log ∧ choice.late = false ∧
      s.step client thread choice = none) ∨
    (.announced f ∉ events client log ∧ choice.late = true ∧
      ∃ s', s.step client thread choice = some s' ∧ s'.shared = s.shared ∧
        s'.stackOf thread = .deliver (.outcome none) :: below) ∨
    (.announced f ∈ events client log ∧ ∃ s' outcome, winner f log = some outcome ∧
      s.step client thread choice = some s' ∧ s'.shared = s.shared ∧
      s'.stackOf thread = .deliver (.outcome (some outcome)) :: below)
  /-- A stop that waits for a listener's future hears the outcome in the same way. -/
  stops : ∀ thread stopping listener rest below choice, stopping.asked = (listener, f) :: rest →
    s.stackOf thread = .awaitListeners stopping :: below →
    (.announced f ∉ events client log ∧ s.step client thread choice = none) ∨
    (.announced f ∈ events client log ∧ ∃ s' outcome, winner f log = some outcome ∧
      s.step client thread choice = some s' ∧ s'.shared = s.shared ∧
      s'.stackOf thread = .awaitListeners { stopping with
        asked := rest, report := stopping.report.afterListener listener outcome } :: below)
  /-- Whoever looks at the future sees the outcome of the first completion, if there was
  one. -/
  views : ∀ thread role next below choice,
    s.stackOf thread = .running role (.ask (.view f) next) :: below →
    s.shared.hasHandle f = true →
    ∃ s' view, s.step client thread choice = some s' ∧ s'.shared = s.shared ∧
      s'.stackOf thread = .deliver (.view view) :: .waiting role next :: below ∧
      view.state = winner f log
  /-- There was one if the callback of the future is being run. -/
  inside : ∀ thread, .announce f ∈ s.stackOf thread → (winner f log).isSome

section Completions

variable {s : Shared W} {f : FutureId} {outcome : Outcome}

theorem Shared.settleResult_cases (s : Shared W) (f : FutureId) :
    (s.settleResult f = .ok () ∧ ∃ u, s.futures.get? f = some u ∧ u.state = none) ∨
    (s.settleResult f = .error (.alreadyCompleted f) ∧
      ∀ u, s.futures.get? f = some u → u.state.isSome) := by
  cases found : s.futures.get? f with
  | none => exact .inr ⟨by simp [settleResult, found], by simp⟩
  | some u =>
    obtain ⟨strand, returnType, state, callback, notified, claimed, kept⟩ := u
    cases state with
    | some earlier => exact .inr ⟨by simp [settleResult, found], by simp⟩
    | none => exact .inl ⟨by simp [settleResult, found], _, rfl, rfl⟩

theorem settleStep_of_some {u : Future W} (found : s.futures.get? f = some u)
    (state : u.state.isSome) (outcome : Outcome) : settleStep s f outcome = { shared := s } := by
  obtain ⟨strand, returnType, earlier, callback, notified, claimed, kept⟩ := u
  cases earlier with
  | some earlier => simp [settleStep, found]
  | none => cases state

theorem settleStep_of_none {u : Future W} {callback : Callback W}
    (found : s.futures.get? f = some u) (pending : u.state = none)
    (own : u.callback = some callback) (outcome : Outcome) : settleStep s f outcome =
      { shared := s.modifyFuture f (·.complete outcome)
        frames := callback.notify outcome ++ [.announce f] } := by
  obtain ⟨strand, returnType, state, kept, notified, claimed, kept⟩ := u
  obtain rfl : state = none := pending
  obtain rfl : _ = some callback := own
  simp [settleStep, found]

theorem awaitFutureStep_of_notified {u : Future W} (found : s.futures.get? f = some u)
    (notified : u.notified = true) (late : Bool) : awaitFutureStep s f late =
      some { shared := s, frames := [.deliver (.outcome u.state)] } := by
  obtain ⟨strand, returnType, state, callback, marked, claimed, kept⟩ := u
  obtain rfl : marked = true := notified
  simp [awaitFutureStep, found]

theorem awaitFutureStep_of_unnotified {u : Future W} (found : s.futures.get? f = some u)
    (unnotified : u.notified = false) (late : Bool) : awaitFutureStep s f late =
      if late then some { shared := s, frames := [.deliver (.outcome none)] } else none := by
  obtain ⟨strand, returnType, state, callback, marked, claimed, kept⟩ := u
  obtain rfl : marked = false := unnotified
  simp [awaitFutureStep, found]

section

variable {stopping : Stopping W} {listener : ObjectId} {rest : List (ObjectId × FutureId)}
  (asked : stopping.asked = (listener, f) :: rest)

include asked

theorem awaitListenersStep_of_notified {u : Future W} (found : s.futures.get? f = some u)
    (notified : u.notified = true) (state : u.state = some outcome) :
    awaitListenersStep s stopping = some
      { shared := s
        frames := [.awaitListeners { stopping with
          asked := rest, report := stopping.report.afterListener listener outcome }] } := by
  obtain ⟨strand, returnType, own, callback, marked, claimed, kept⟩ := u
  obtain rfl : marked = true := notified
  obtain rfl : own = some outcome := state
  simp [awaitListenersStep, asked, found]

theorem awaitListenersStep_of_unnotified {u : Future W} (found : s.futures.get? f = some u)
    (unnotified : u.notified = false) : awaitListenersStep s stopping = none := by
  obtain ⟨strand, returnType, own, callback, marked, claimed, kept⟩ := u
  obtain rfl : marked = false := unnotified
  simp [awaitListenersStep, asked, found]

end

theorem completionsOf_append (f : FutureId) (a b : List (Beat W)) :
    completionsOf f (a ++ b) = completionsOf f a ++ completionsOf f b := List.filterMap_append

theorem completionsOf_one (f : FutureId) (beat : Beat W) :
    completionsOf f [beat] = (beat.completion f).toList := by
  cases completion : beat.completion f <;> simp [completionsOf, completion]

theorem Beat.completion_eq {beat : Beat W}
    (stands : beat.s.acting beat.thread = some (.settle f outcome)) :
    beat.completion f = some (outcome, beat.s.shared.settleResult f) := by
  simp [completion, stands]

theorem Beat.acting_of_completion {beat : Beat W} {result : Except FutureError Unit}
    (completion : beat.completion f = some (outcome, result)) :
    beat.s.acting beat.thread = some (.settle f outcome) ∧
      result = beat.s.shared.settleResult f := by
  unfold Beat.completion at completion
  split at completion
  · rename_i g o stands
    split at completion
    · rename_i own
      cases completion
      exact ⟨own ▸ stands, rfl⟩
    · cases completion
  · cases completion

theorem winner_append (f : FutureId) (a b : List (Beat W)) :
    winner f (a ++ b) = (winner f a).or (winner f b) := by
  unfold winner
  rw [completionsOf_append]
  cases completionsOf f a <;> simp

theorem winner_eq_none {log : List (Beat W)} : winner f log = none ↔ completionsOf f log = [] := by
  cases h : completionsOf f log <;> simp [winner, h]

end Completions

namespace State

variable {client : Client W} {start s s' : State W} {thread : ThreadId} {choice : Choice}
  {f : FutureId} {log : List (Beat W)} {callback : Callback W}

/-! ## One step -/

section

variable (taken : s.step client thread choice = some s')

include taken

theorem get?_step {u : Future W} (found : s.shared.futures.get? f = some u) :
    s'.shared.futures.get? f = some ((s.event client thread).update f u) := by
  rcases (step_accounts taken).futures.get? f with ⟨_, none, _⟩ | ⟨_, same⟩
  · rw [none] at found
    cases found
  · rw [same, found]
    rfl

theorem outcomeOf_of_no_completion (idle : (⟨s, thread⟩ : Beat W).completion f = none) :
    (s.event client thread).outcomeOf f = none := by
  obtain ⟨acted⟩ := step_cases taken
  have event := acted.event
  have stands := acted.acting
  have move := acted.move
  generalize acted.progress = p at move
  generalize acted.top = top at move event stands
  cases told : s.event client thread with
  | notified g outcome failing =>
    rw [told] at event
    cases move with
    | act moved =>
      obtain ⟨rfl, _⟩ := Frame.of_notified event.symm
      by_cases own : g = f
      · subst own
        rw [Beat.completion_eq stands] at idle
        cases idle
      · simp [Event.outcomeOf, own]
    | receive reply role next => cases reply <;> cases event
    | pass reply held => cases event
  | _ => rfl

theorem outcomeOf_of_completion {outcome : Outcome} {result : Except FutureError Unit}
    (completion : (⟨s, thread⟩ : Beat W).completion f = some (outcome, result)) :
    (result = .ok () ∧ (∃ u, s.shared.futures.get? f = some u ∧ u.state = none) ∧
      (s.event client thread).outcomeOf f = some outcome) ∨
    (result = .error (.alreadyCompleted f) ∧ (s.event client thread).outcomeOf f = none ∧
      ∀ u, s.shared.futures.get? f = some u → u.state.isSome) := by
  obtain ⟨stands, rfl⟩ := Beat.acting_of_completion completion
  rcases s.shared.settleResult_cases f with ⟨result, u, found, pending⟩ | ⟨result, complete⟩
  · refine .inl ⟨result, ⟨u, found, pending⟩, ?_⟩
    obtain ⟨acted⟩ := step_cases taken
    rw [acted.event, acted.top_of_acting stands (fun _ eq => by cases eq)]
    obtain ⟨strand, returnType, state, callback, notified, claimed, kept⟩ := u
    obtain rfl : state = none := pending
    simp [Move.event, Frame.event, found, Event.outcomeOf]
  · refine .inr ⟨result, ?_, complete⟩
    rcases (step_accounts taken).futures.outcomeOf_cases f with none | ⟨_, u, _, _, found, pending⟩
    · exact none
    · have some := complete u found
      rw [pending] at some
      cases some

theorem announces_step : weigh (Stake.announces f) s'.stakes +
    (s.event client thread).announces f =
      weigh (Stake.announces f) s.stakes + (s.event client thread).notifies f := by
  have balance := (step_accounts taken).stakes (Stake.announces f)
  generalize s.event client thread = e at balance
  cases e with
  | opened g fault context =>
    cases fault <;> simpa [Stake.announces, Event.announces, Event.notifies] using balance
  | appended r group g took =>
    cases took <;> simpa [Stake.announces, Event.announces, Event.notifies] using balance
  | notified g outcome failing =>
    cases failing <;> simpa [Stake.announces, Event.announces, Event.notifies] using balance
  | _ => simpa [Stake.announces, Event.announces, Event.notifies] using balance

end

/-! ## Runs -/

/-- Nobody is about to announce a future whose callback was not notified. -/
theorem Unwritten.announces (fresh : start.Unwritten f callback) :
    weigh (Stake.announces f) start.stakes = 0 := by
  by_contra held
  obtain ⟨stake, mem, pos⟩ := weigh_pos (Nat.pos_of_ne_zero held)
  cases stake with
  | announce g =>
    obtain rfl : g = f := one_pos pos
    rcases List.mem_append.1 mem with ofThread | shared
    · obtain ⟨t, inThreads, ofStack⟩ := List.mem_flatMap.1 ofThread
      obtain ⟨frame, inStack, holds⟩ := List.mem_flatMap.1 ofStack
      obtain rfl := Frame.holds_of_mem holds
      exact fresh.unannounced t inThreads inStack
    · cases Shared.not_personal shared
  | _ => cases pos

section

variable (fresh : start.Unwritten f callback) (run : Log client start log s)

include fresh run

/-- What a run's completions say of the future's record and of its history. -/
theorem Log.first_completes : FirstWins (.alreadyCompleted f) (completionsOf f log) ∧
    outcomes f (events client log) = (winner f log).toList ∧
    ∃ u, s.shared.futures.get? f = some u ∧ u.state = winner f log ∧
      u.callback = (if (winner f log).isSome then none else some callback) ∧
      (u.notified = true ↔ .announced f ∈ events client log) := by
  induction run with
  | start =>
    obtain ⟨u, found, pending, own, unnotified⟩ := fresh.record
    refine ⟨.untried, rfl, u, found, pending, own, ?_⟩
    rw [unnotified]
    exact ⟨fun h => (by cases h), fun h => (by cases h)⟩
  | @step log s s' thread choice run taken ih =>
    obtain ⟨wins, told, u, found, state, own, notified⟩ := ih
    obtain ⟨wins', stored⟩ :
        FirstWins (.alreadyCompleted f) (completionsOf f (log ++ [⟨s, thread⟩])) ∧
        (s.event client thread).outcomeOf f =
          if (winner f log).isSome then none else winner f [⟨s, thread⟩] := by
      have now : winner f [⟨s, thread⟩] = ((⟨s, thread⟩ : Beat W).completion f).map Prod.fst := by
        rw [winner, completionsOf_one]
        cases (⟨s, thread⟩ : Beat W).completion f <;> rfl
      rw [completionsOf_append, completionsOf_one, now]
      cases completion : (⟨s, thread⟩ : Beat W).completion f with
      | none =>
        rw [outcomeOf_of_no_completion taken completion]
        exact ⟨by simpa using wins, by simp⟩
      | some c =>
        obtain ⟨outcome, result⟩ := c
        rcases outcomeOf_of_completion taken completion with
          ⟨rfl, ⟨v, there, pending⟩, told⟩ | ⟨rfl, told, complete⟩
        · rw [found] at there
          cases there
          have first : completionsOf f log = [] := winner_eq_none.1 (state.symm.trans pending)
          rw [told, first, winner_eq_none.2 first]
          exact ⟨.won outcome [] (by simp), rfl⟩
        · have some := complete u found
          rw [state] at some
          rw [told, if_pos some]
          refine ⟨wins.snoc (fun none => ?_) outcome, rfl⟩
          rw [winner_eq_none.2 none] at some
          cases some
    refine ⟨wins', ?_, _, get?_step taken found, ?_, ?_, ?_⟩
    · rw [events_append, outcomes_append, told, winner_append]
      have last : outcomes f (events client [⟨s, thread⟩]) =
          ((s.event client thread).outcomeOf f).toList := by
        simp only [outcomes, events_cons, events_nil, List.filterMap_cons, List.filterMap_nil,
          Beat.event]
        cases (s.event client thread).outcomeOf f <;> rfl
      rw [last, stored]
      cases winner f log <;> simp
    · rw [Event.update_state, stored, state, winner_append]
      cases winner f log <;> simp
    · rw [Event.update_callback, stored, own, winner_append]
      cases winner f log <;> rfl
    · rw [Event.update_notified, notified, events_append, List.mem_append]
      exact or_congr_right (by simp [Beat.event, eq_comm])

theorem Log.announces_law : weigh (Stake.announces f) s.stakes +
    tally (Event.announces f) (events client log) = (winner f log).toList.length := by
  rw [← (run.first_completes fresh).2.1, ← tally_notifies]
  induction run with
  | start => exact fresh.announces
  | @step log s s' thread choice run taken ih =>
    have here := announces_step (f := f) taken
    simp only [events_append, events_cons, events_nil, tally_append, tally_cons, tally_nil,
      Beat.event]
    omega

theorem Log.not_announced {above below : List (Frame W)}
    (stack : s.stackOf thread = above ++ .announce f :: below) :
    .announced f ∉ events client log := fun mem => by
  have law := run.announces_law fresh
  have inStack : .announce f ∈ s.stackOf thread := by rw [stack]; simp
  have held : Stake.announce f ∈ s.stakes :=
    mem_stakes_of_stackOf inStack (List.mem_singleton.2 rfl)
  have holds := weigh_pos_of_mem (w := Stake.announces f) held (one_self f)
  have announces := tally_pos_of_mem (n := Event.announces f) mem (one_self f)
  cases won : winner f log <;> simp [won] at law <;> omega

/-- How far the completion has come. -/
theorem Log.settling : Settling client f log s := by
  induction run with
  | start => exact .unwritten rfl (by simp)
  | @step log s s' thread choice run taken ih =>
    have run' := run.step taken
    cases ih with
    | unwritten none never =>
      obtain ⟨_, _, u, found, pending, own, _⟩ := run.first_completes fresh
      rw [none] at pending own
      cases completion : (⟨s, thread⟩ : Beat W).completion f with
      | none =>
        have still : winner f (log ++ [⟨s, thread⟩]) = .none := by
          rw [winner_append, none, winner_eq_none.2 (by rw [completionsOf_one, completion]; rfl)]
          rfl
        refine .unwritten still fun mem => ?_
        have law := run'.announces_law fresh
        have announces := tally_pos_of_mem (n := Event.announces f) mem (one_self f)
        rw [still, Option.toList_none, List.length_nil] at law
        omega
      | some c =>
        obtain ⟨below, stack⟩ := stackOf_of_acting (Beat.acting_of_completion completion).1
        obtain ⟨_, p, moved, _, after⟩ := own_step stack (fun _ eq => by cases eq) taken
        have begun : p = settleStep s.shared f c.1 := (Option.some.inj moved).symm
        rw [begun, settleStep_of_none found pending own, List.append_assoc] at after
        exact .notifying log [] ⟨s, thread⟩ c.1 _ below rfl (winner_eq_none.1 none) stack after
          (run'.not_announced fresh after)
    | notifying before after beat outcome above below eq first began busy never =>
      obtain ⟨acted⟩ := step_cases taken
      rcases acted.base_cases (fun _ eq => by cases eq) (fun _ eq => by cases eq)
        (fun _ _ eq => by cases eq) busy with ⟨above', busy'⟩ | ⟨own, rfl, top, _⟩
      · exact .notifying before (after ++ [⟨s, thread⟩]) beat outcome above' below
          (by rw [eq]; simp) first began busy' (run'.not_announced fresh busy')
      · -- The callback is over, and the thread marks the future as notified.
        refine .notified before after [] beat ⟨s, thread⟩ outcome below (by rw [eq]; simp) first
          began own.symm busy (by rwa [eq] at never) ?_
        change s.event client thread = _
        rw [acted.event, top]
        rfl
    | notified before during after beat last outcome below eq first began own back never told =>
      exact .notified before during (after ++ [⟨s, thread⟩]) beat last outcome below
        (by rw [eq]; simp) first began own back never told

theorem Log.isSome_of_announced (mem : .announced f ∈ events client log) :
    (winner f log).isSome := by
  have law := run.announces_law fresh
  have announces := tally_pos_of_mem (n := Event.announces f) mem (one_self f)
  cases won : winner f log with
  | none =>
    rw [won, Option.toList_none, List.length_nil] at law
    omega
  | some outcome => rfl

/-- What completing the future leaves depends on whether it was completed before. -/
theorem Log.completes {outcome : Outcome} {below : List (Frame W)} (choice : Choice)
    (stack : s.stackOf thread = .settle f outcome :: below) :
    ∃ s', s.step client thread choice = some s' ∧
      ((winner f log = none ∧ s'.shared = s.shared.modifyFuture f (·.complete outcome) ∧
          s'.stackOf thread = callback.notify outcome ++ .announce f :: below ∧
          ∀ notify, callback = .client notify → s'.stackOf thread =
            .running (.callback outcome) (notify outcome) :: .announce f :: below) ∨
        (winner f log ≠ none ∧ s'.shared = s.shared ∧ s'.stackOf thread = below)) := by
  obtain ⟨_, _, u, found, state, own, _⟩ := run.first_completes fresh
  obtain ⟨_, s', taken, shared, after⟩ := can_step client choice
    (p := fun _ => settleStep s.shared f outcome) stack (fun _ eq => by cases eq) fun _ => rfl
  refine ⟨s', taken, ?_⟩
  cases won : winner f log with
  | none =>
    rw [won] at state own
    rw [settleStep_of_none found state own] at shared after
    rw [List.append_assoc] at after
    refine .inl ⟨rfl, shared, after, ?_⟩
    rintro notify rfl
    exact after
  | some earlier =>
    rw [settleStep_of_some found (by rw [state, won]; rfl)] at shared after
    exact .inr ⟨by simp, shared, after⟩

theorem Log.waits_or_hears {frame : Frame W} {below : List (Frame W)} {choice : Choice}
    (hears : Outcome → Frame W) (stack : s.stackOf thread = frame :: below)
    (notReply : ∀ reply, frame ≠ .deliver reply)
    (unmarked : ∀ u sight, s.shared.futures.get? f = some u → u.notified = false →
      frame.step client sight choice s.shared = none)
    (marked : ∀ u outcome sight, s.shared.futures.get? f = some u → u.notified = true →
      u.state = some outcome → frame.step client sight choice s.shared =
        some { shared := s.shared, frames := [hears outcome] }) :
    (.announced f ∉ events client log ∧ s.step client thread choice = none) ∨
    (.announced f ∈ events client log ∧ ∃ s' outcome, winner f log = some outcome ∧
      s.step client thread choice = some s' ∧ s'.shared = s.shared ∧
      s'.stackOf thread = hears outcome :: below) := by
  obtain ⟨_, _, u, found, state, _, notified⟩ := run.first_completes fresh
  by_cases mem : .announced f ∈ events client log
  · obtain ⟨outcome, won⟩ := Option.isSome_iff_exists.1 (run.isSome_of_announced fresh mem)
    obtain ⟨_, s', taken, shared, after⟩ := can_step client choice
      (p := fun _ => { shared := s.shared, frames := [hears outcome] }) stack notReply fun _ =>
        marked u outcome _ found (notified.2 mem) (state.trans won)
    exact .inr ⟨mem, s', outcome, won, taken, shared, after⟩
  · refine .inl ⟨mem, step_eq_none (acting_of_stackOf stack) notReply fun sight _ _ => ?_⟩
    exact unmarked u sight found (Bool.eq_false_iff.2 (mt notified.1 mem))

/-- Whoever waits for a limited time hears the first outcome, or that the time is over. -/
theorem Log.waits_at_most {milliseconds : Nat} {below : List (Frame W)} {choice : Choice}
    (stack : s.stackOf thread = .awaitFutureAtMost f milliseconds :: below) :
    (.announced f ∉ events client log ∧ choice.late = false ∧
      s.step client thread choice = none) ∨
    (.announced f ∉ events client log ∧ choice.late = true ∧
      ∃ s', s.step client thread choice = some s' ∧ s'.shared = s.shared ∧
        s'.stackOf thread = .deliver (.outcome none) :: below) ∨
    (.announced f ∈ events client log ∧ ∃ s' outcome, winner f log = some outcome ∧
      s.step client thread choice = some s' ∧ s'.shared = s.shared ∧
      s'.stackOf thread = .deliver (.outcome (some outcome)) :: below) := by
  obtain ⟨_, _, u, found, state, _, notified⟩ := run.first_completes fresh
  by_cases out : choice.late = true ∧ .announced f ∉ events client log
  · obtain ⟨late, never⟩ := out
    have step := awaitFutureStep_of_unnotified found (Bool.eq_false_iff.2 (mt notified.1 never))
      choice.late
    rw [late] at step
    obtain ⟨_, s', taken, shared, after⟩ := can_step client choice stack
      (fun _ eq => by cases eq) fun _ => by rw [Frame.step, late]; exact step
    exact .inr (.inl ⟨never, late, s', taken, shared, after⟩)
  · by_cases mem : .announced f ∈ events client log
    · obtain ⟨outcome, won⟩ := Option.isSome_iff_exists.1 (run.isSome_of_announced fresh mem)
      have step := awaitFutureStep_of_notified found (notified.2 mem) choice.late
      rw [state, won] at step
      obtain ⟨_, s', taken, shared, after⟩ := can_step client choice stack
        (fun _ eq => by cases eq) fun _ => step
      exact .inr (.inr ⟨mem, s', outcome, won, taken, shared, after⟩)
    · have late : choice.late = false := Bool.eq_false_iff.2 fun late => out ⟨late, mem⟩
      have step := awaitFutureStep_of_unnotified found (Bool.eq_false_iff.2 (mt notified.1 mem))
        choice.late
      rw [late] at step
      refine .inl ⟨mem, late, step_eq_none (acting_of_stackOf stack) (fun _ eq => by cases eq) ?_⟩
      exact fun _ _ _ => by rw [Frame.step, late]; exact step

theorem Log.sees {role : Role W} {next : Reply → Code W} {below : List (Frame W)} (choice : Choice)
    (stack : s.stackOf thread = .running role (.ask (.view f) next) :: below)
    (has : s.shared.hasHandle f = true) :
    ∃ s' view, s.step client thread choice = some s' ∧ s'.shared = s.shared ∧
      s'.stackOf thread = .deliver (.view view) :: .waiting role next :: below ∧
      view.state = winner f log := by
  obtain ⟨_, _, u, found, state, _⟩ := run.first_completes fresh
  obtain ⟨strand, returnType, own, kept, notified, claimed, keeps⟩ := u
  obtain rfl : keeps = true := by simpa [Shared.hasHandle, found] using has
  obtain ⟨_, s', taken, shared, after⟩ := can_step client choice stack
    (fun _ eq => by cases eq) fun _ => rfl
  simp only [Request.serve, found] at after
  exact ⟨s', _, taken, shared, after, state⟩

/-- A future is written once, whichever threads complete it, look at it and wait for it, and
whatever its callback does. -/
theorem Log.writes_once : WrittenOnce client f callback log s := by
  obtain ⟨first, told, u, found, state, _, notified⟩ := run.first_completes fresh
  refine ⟨first, ⟨u, found, state, notified⟩, told, run.settling fresh,
    run.isSome_of_announced fresh, fun _ _ _ choice => run.completes fresh choice, ?_,
    fun _ _ _ _ => run.waits_at_most fresh, ?_, fun _ _ _ _ choice => run.sees fresh choice, ?_⟩
  · intro thread below choice stack
    refine run.waits_or_hears fresh (fun outcome => .deliver (.outcome (some outcome)))
      stack (fun _ eq => by cases eq) ?_ ?_
    · exact fun v _ there unmarked => awaitFutureStep_of_unnotified there unmarked false
    · intro v outcome _ there marked won
      rw [← won]
      exact awaitFutureStep_of_notified there marked false
  · intro thread stopping listener rest below choice asked stack
    refine run.waits_or_hears fresh (fun outcome => .awaitListeners { stopping with
      asked := rest, report := stopping.report.afterListener listener outcome })
      stack (fun _ eq => by cases eq) ?_ ?_
    · exact fun v _ there unmarked => awaitListenersStep_of_unnotified asked there unmarked
    · exact fun v outcome _ there marked won =>
        awaitListenersStep_of_notified asked there marked won
  · intro thread inStack
    have law := run.announces_law fresh
    have held := weigh_pos_of_mem (w := Stake.announces f)
      (mem_stakes_of_stackOf inStack (List.mem_singleton.2 rfl)) (one_self f)
    cases won : winner f log with
    | none =>
      rw [won, Option.toList_none, List.length_nil] at law
      omega
    | some outcome => rfl

end

/-! ## Futures of a scheduler -/

section

variable {workers : Nat} {world : W} {kept : List ObjectId} {threads : List (Code W)}
  {history : List Event}
  (trace : Trace client (State.start workers world kept threads) history s)

include trace

theorem Trace.callback_of_pending {u : Future W} (found : s.shared.futures.get? f = some u)
    (pending : u.state = none) : u.callback.isSome := by
  refine trace.keeps (fun _ s => ∀ u, s.shared.futures.get? f = some u → u.state = none →
    u.callback.isSome) (fun u found => by cases f <;> cases found) ?_ u found pending
  intro before e moment ih u found pending
  rcases moment.accounts.futures.get? f with ⟨_, _, v, there, fresh, _⟩ | ⟨_, same⟩
  · rw [there] at found
    cases found
    exact fresh.callback
  · rw [same] at found
    obtain ⟨v, there, rfl⟩ := Option.map_eq_some_iff.1 found
    rw [Event.update_state, Option.or_eq_none_iff] at pending
    rw [Event.update_callback, pending.1]
    exact ih v there pending.2

theorem Trace.unwritten_of_pending {u : Future W} (found : s.shared.futures.get? f = some u)
    (pending : u.state = none) (own : u.callback = some callback) : s.Unwritten f callback := by
  have recorded := trace.recorded
  have law := trace.announce_law f
  rw [tally_notifies, recorded.outcomes, found, Option.bind_some, pending, Option.toList_none,
    List.length_nil] at law
  refine ⟨⟨u, found, pending, own, Bool.eq_false_iff.2 fun notified => ?_⟩, ?_⟩
  · have announces := tally_pos_of_mem (n := Event.announces f)
      ((recorded.announced f u found).1 notified) (one_self f)
    omega
  · intro t mem inStack
    have held := weigh_pos_of_mem (w := Stake.announces f)
      (stakes_of_mem mem inStack (List.mem_singleton.2 rfl)) (one_self f)
    omega

end

end State

namespace Sample

/-- A callback that looks at its own future and then panics. -/
def lookAndPanic : Outcome → Code Unit := fun _ =>
  .ask (.view 1) fun _ => .panic (.text "no more")

/-- A client schedules a unit for the future of a call, and waits for it. -/
def overtake : Code Unit :=
  .invoke .concurrent { receiver := some 1, method := some "m" } lookAndPanic
    (withFuture fun f => schedule .free f (.ask (.wait f) fun _ => done))

end Sample

namespace State

open Sample

def overtaking : State Unit := State.start 2 () [1] [overtake]

def overtakingTurns : List ThreadId := List.replicate 40 2 ++ [0, 0, 0, 1, 1]

/-- A worker that failed to compute the call's argument and another one that ran the unit are
about to complete the same future, and the client waits for it. -/
def racing : State Unit := (overtaking.replay (client failure) overtakingTurns).2

def racingTurns : List ThreadId := [2, 0, 2, 1, 0, 0, 2, 0, 0, 2, 2]

/-- The failed call comes first; the unit is turned away while the callback looks at the
future, and the client hears the outcome after the callback has panicked. -/
theorem writes_once_racing :
    WrittenOnce (client failure) 1 (.client lookAndPanic)
      (racing.beats (client failure) racingTurns) (racing.replay (client failure) racingTurns).2 ∧
    (completionsOf 1 (racing.beats (client failure) racingTurns)).length = 2 ∧
    winner 1 (racing.beats (client failure) racingTurns) = some (.error (.user "no value")) := by
  have reached := (log_beats (client failure) overtaking overtakingTurns).trace
  exact ⟨Log.writes_once (reached.unwritten_of_pending (f := 1) rfl rfl rfl) (log_beats _ _ _),
    rfl, rfl⟩

end State
end Strands
