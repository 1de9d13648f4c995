/-
Exactly-once completion.

A client gives a future its callback when it asks for the future or makes a call, which is
`Beat.Makes`.  The future keeps the callback until it has an outcome, and the thread that stores
the outcome goes on with the callback's code: `Log.notifies`.

`Log.completes_exactly_once`: along every run, whatever units, default expressions and
callbacks do, no callback is notified twice.  While no work is in flight, a future that a
schedule call was answered for, and one that an invocation has returned, has an outcome, and
its callback was notified of it once and has returned.  Left out is a returned future that a
client is just binding to a unit of its own, in a schedule call that has claimed the future
and not yet counted the unit; `returned_not_completed` is a run that ends there.
-/
import Strands.Proofs.Turns
import Strands.Proofs.Units

namespace Strands

variable {W : Type}

/-! ## Callbacks of futures -/

/-- A client's future is made with a callback, by hand or for a call. -/
inductive Beat.Makes (beat : Beat W) : FutureId → (Outcome → Code W) → Prop
  | created {role : Role W} {spec : FutureSpec} {notify : Outcome → Code W}
      {next : Reply → Code W} {below : List (Frame W)} :
      beat.s.stackOf beat.thread = .running role (.create spec notify next) :: below →
      Makes beat beat.s.shared.futures.nextId notify
  | opened {call : Call W} {metadata : Metadata} {fault : Option Panic}
      {below : List (Frame W)} :
      beat.s.stackOf beat.thread = .openCall call metadata fault :: below →
      Makes beat beat.s.shared.futures.nextId call.callback

def Shared.HasCallback (s : Shared W) (f : FutureId) (callback : Callback W) : Prop :=
  ∃ u, s.futures.get? f = some u ∧ (u.state = none → u.callback = some callback)

section Frames

variable {client : Client W} {s : Shared W} {f : FutureId}

/-- Callbacks are notified by the completion of their futures. -/
theorem Frame.of_notified {worker : Bool} {below : List (Frame W)} {frame : Frame W}
    {outcome : Outcome} {failing : Option FutureId}
    (notified : frame.event client worker s below = .notified f outcome failing) :
    frame = .settle f outcome ∧ ∃ u, s.futures.get? f = some u ∧ u.state = none := by
  have has := frame.has_event client s worker below
  rw [notified] at has
  cases has with
  | notified found pending => exact ⟨rfl, _, found, pending⟩
  | managed managed | placed managed _ => cases managed

theorem Frame.of_opened {frame : Frame W} {call : Call W} {metadata : Metadata}
    {fault : Option Panic} (opens : frame.deed client s = .opened f call metadata fault) :
    frame = .openCall call metadata fault ∧ f = s.futures.nextId := by
  have does := frame.does client s
  rw [opens] at does
  cases does with
  | opened => exact ⟨rfl, rfl⟩
  | managed managed _ => cases managed

theorem Shared.hasCallback_of_append {before : Futures W} {spec : FutureSpec}
    {callback : Callback W} (futures : s.futures = before ++ [.make before.nextId spec callback]) :
    s.HasCallback before.nextId callback :=
  ⟨_, by rw [futures, Futures.get?_append_nextId], fun _ => rfl⟩

end Frames

namespace State

variable {client : Client W} {start s s' : State W} {log : List (Beat W)} {f : FutureId}
  {callback : Callback W} {notify : Outcome → Code W}

theorem hasCallback_step {thread : ThreadId} {choice : Choice}
    (taken : s.step client thread choice = some s') (has : s.shared.HasCallback f callback) :
    s'.shared.HasCallback f callback := by
  obtain ⟨u, found, own⟩ := has
  rcases (step_accounts taken).futures.get? f with ⟨_, none, _⟩ | ⟨_, same⟩
  · rw [none] at found
    cases found
  · rw [found] at same
    refine ⟨_, same, fun pending => ?_⟩
    rw [Event.update_state, Option.or_eq_none_iff] at pending
    rw [Event.update_callback, pending.1]
    exact own pending.2

theorem Log.hasCallback (run : Log client start log s) (has : start.shared.HasCallback f callback) :
    s.shared.HasCallback f callback := by
  induction run with
  | start => exact has
  | step _ taken ih => exact hasCallback_step taken ih

theorem Log.isSome_get? (run : Log client start log s)
    (there : (start.shared.futures.get? f).isSome) : (s.shared.futures.get? f).isSome := by
  induction run with
  | start => exact there
  | step _ taken ih => exact isSome_of_step taken ih

theorem Log.mem_before {before after : List (Beat W)} {beat maker : Beat W}
    (run : Log client start (before ++ beat :: after) s) (mem : maker ∈ before ++ beat :: after)
    (there : (beat.s.shared.futures.get? maker.s.shared.futures.nextId).isSome) :
    maker ∈ before := by
  refine (List.mem_append.1 mem).resolve_right fun later => ?_
  obtain ⟨_, choice, middle, taken, rest⟩ := run.split
  obtain ⟨between, others, eq⟩ := List.append_of_mem later
  have going : Log client beat.s (beat :: after) s := (Log.one taken).append rest
  rw [eq] at going
  have still := going.split.1.isSome_get? there
  rw [Futures.get?_nextId] at still
  cases still

theorem Log.callback_of_deed (run : Log client start log s) {δ : Deed W} {spec : FutureSpec}
    (mem : δ ∈ deeds client log) (makes : δ.makes = some (f, spec, callback)) :
    s.shared.HasCallback f callback := by
  obtain ⟨beat, inLog, rfl⟩ := List.mem_map.1 mem
  obtain ⟨_, _, _, taken, later⟩ := run.step_of_mem inLog
  obtain ⟨rfl, futures⟩ := makes_of_deed taken makes
  exact later.hasCallback (Shared.hasCallback_of_append futures)

theorem makes_step {beat : Beat W} (makes : beat.Makes f notify) {choice : Choice}
    (taken : beat.s.step client beat.thread choice = some s') :
    f = beat.s.shared.futures.nextId ∧ s'.shared.HasCallback f (.client notify) := by
  cases makes with
  | created stack | opened stack =>
    obtain ⟨_, p, moved, shared, _⟩ := own_step stack (fun _ eq => by cases eq) taken
    cases moved
    exact ⟨rfl, Shared.hasCallback_of_append (congrArg Shared.futures shared)⟩

section

variable (run : Log client start log s)

include run

theorem Log.callback_of_makes {beat : Beat W} (mem : beat ∈ log) (makes : beat.Makes f notify) :
    f = beat.s.shared.futures.nextId ∧ s.shared.HasCallback f (.client notify) := by
  obtain ⟨_, _, _, taken, later⟩ := run.step_of_mem mem
  obtain ⟨own, has⟩ := makes_step makes taken
  exact ⟨own, later.hasCallback has⟩

theorem Log.makes_of_opened {call : Call W} {metadata : Metadata} {fault : Option Panic}
    (opened : .opened f call metadata fault ∈ deeds client log) :
    ∃ beat ∈ log, beat.deed client = .opened f call metadata fault ∧ beat.Makes f call.callback := by
  obtain ⟨beat, mem, deed⟩ := List.mem_map.1 opened
  obtain ⟨_, _, _, taken, _⟩ := run.step_of_mem mem
  obtain ⟨acted⟩ := step_cases taken
  have stack := acted.stackOf_eq
  have move := acted.move
  refine ⟨beat, mem, deed, ?_⟩
  rw [deed_of_acted acted] at deed
  generalize acted.progress = p at move
  generalize acted.top = top at move deed stack
  cases move with
  | act moved =>
    obtain ⟨rfl, rfl⟩ := Frame.of_opened deed
    exact .opened stack
  | _ => cases deed

theorem Log.makes_of_event {beat : Beat W} (mem : beat ∈ log)
    (serves : 0 < (beat.event client).serves f) : ∃ notify, beat.Makes f notify := by
  obtain ⟨_, _, _, taken, _⟩ := run.step_of_mem mem
  obtain ⟨acted⟩ := step_cases taken
  obtain ⟨frame, above, top, has⟩ := acted.move.has_event acted.actor.worker acted.below
  rw [← acted.event, show beat.s.event client beat.thread = beat.event client from rfl] at has
  have stack := acted.stackOf_eq
  rw [top] at stack
  generalize beat.event client = e at serves has
  cases has with
  | created =>
    rw [← one_pos serves]
    exact ⟨_, .created stack⟩
  | opened =>
    rw [← one_pos serves]
    exact ⟨_, .opened stack⟩
  | managed managed | placed managed _ => cases e <;> first | cases serves | cases managed
  | _ => cases serves

/-- The thread that completes a future goes on with the callback that the future was made with. -/
theorem Log.notifies {beat maker : Beat W} (mem : beat ∈ log) (made : maker ∈ log)
    (makes : maker.Makes f notify) {outcome : Outcome} {failing : Option FutureId}
    (notified : beat.event client = .notified f outcome failing) :
    beat.Notifies client notify f outcome := by
  obtain ⟨before, after, rfl⟩ := List.append_of_mem mem
  obtain ⟨earlier, choice, s', taken, _⟩ := run.split
  obtain ⟨own, _⟩ := run.callback_of_makes made makes
  obtain ⟨acted⟩ := step_cases taken
  have found := acted.actor_eq'
  have move := acted.move
  have event := acted.event
  rw [show beat.s.event client beat.thread = _ from notified] at event
  generalize acted.progress = p at found move
  generalize acted.top = top at event move
  cases move with
  | receive reply role next => cases reply <;> cases event
  | pass reply held => cases event
  | act moved =>
    obtain ⟨rfl, u, there, pending⟩ := Frame.of_notified event.symm
    have inBefore := run.mem_before made (by rw [← own, there]; rfl)
    obtain ⟨_, u', there', callback⟩ := earlier.callback_of_makes inBefore makes
    obtain rfl := Option.some.inj (there.symm.trans there')
    cases moved
    refine ⟨choice, s', _, taken, found, ?_⟩
    have callback := callback pending
    obtain ⟨strand, returnType, state, callback', announced, claimed, keeps⟩ := u
    obtain rfl : state = none := pending
    obtain rfl : callback' = _ := callback
    simp only [settleStep, there, Option.map_some, Option.getD_some, Callback.notify]
    exact List.prefix_append _ _

theorem Log.delivers {call : Call W} {metadata : Metadata} {fault : Option Panic}
    (opened : .opened f call metadata fault ∈ deeds client log) {beat : Beat W} (mem : beat ∈ log)
    {outcome : Outcome} {failing : Option FutureId}
    (notified : beat.event client = .notified f outcome failing) :
    beat.Notifies client call.callback f outcome := by
  obtain ⟨maker, made, _, makes⟩ := run.makes_of_opened opened
  exact run.notifies mem made makes notified

end

/-- A call whose future is there was made before. -/
theorem Log.opened_before {before after : List (Beat W)} {beat : Beat W}
    (run : Log client start (before ++ beat :: after) s) {call : Call W} {metadata : Metadata}
    {fault : Option Panic}
    (opened : .opened f call metadata fault ∈ deeds client (before ++ beat :: after))
    (there : (beat.s.shared.futures.get? f).isSome) :
    .opened f call metadata fault ∈ deeds client before := by
  obtain ⟨maker, made, deed, makes⟩ := run.makes_of_opened opened
  obtain ⟨own, _⟩ := run.callback_of_makes made makes
  exact List.mem_map.2 ⟨maker, run.mem_before made (own ▸ there), deed⟩

/-! ## Exactly once -/

section

variable {workers : Nat} {world : W} {kept : List ObjectId} {threads : List (Code W)}

theorem Log.makes_of_handed (run : Log client (State.start workers world kept threads) log s)
    (handed : .handed f ∈ events client log) : ∃ maker ∈ log, ∃ notify, maker.Makes f notify := by
  have law := run.trace.reply_law f
  have hands := tally_pos_of_mem (n := Event.hands f) handed (one_self f)
  have serves : 0 < tally (Event.serves f) (events client log) := by omega
  obtain ⟨e, mem, pos⟩ := tally_pos serves
  obtain ⟨maker, made, rfl⟩ := List.mem_map.1 mem
  exact ⟨maker, made, run.makes_of_event made pos⟩

end

end State

/-- The future is complete, and the thread that completed it went on with the code of the
callback that the future was made with. -/
structure Delivered (client : Client W) (log : List (Beat W)) (s : State W) (f : FutureId)
    (outcome : Outcome) : Prop where
  completed : Completed (events client log) s f outcome
  notified : ∃ maker ∈ log, ∃ notify, maker.Makes f notify ∧
    ∃ beat ∈ log, (∃ failing, beat.event client = .notified f outcome failing) ∧
      beat.Notifies client notify f outcome

namespace State

variable {client : Client W} {workers : Nat} {world : W} {kept : List ObjectId}
  {threads : List (Code W)} {s : State W} {log : List (Beat W)}

theorem Log.delivered_of_handed
    (run : Log client (State.start workers world kept threads) log s) {f : FutureId}
    (handed : .handed f ∈ events client log) {outcome : Outcome}
    (completed : Completed (events client log) s f outcome) : Delivered client log s f outcome := by
  obtain ⟨maker, made, notify, makes⟩ := run.makes_of_handed handed
  have mem : outcome ∈ outcomes f (events client log) := by
    obtain ⟨_, _, _, _, all⟩ := completed
    rw [all]
    exact List.mem_singleton_self _
  obtain ⟨failing, notified⟩ := mem_outcomes.1 mem
  obtain ⟨beat, inLog, event⟩ := List.mem_map.1 notified
  exact ⟨completed, maker, made, notify, makes, beat, inLog, ⟨failing, event⟩,
    run.notifies inLog made makes event⟩

/-- Exactly-once completion.  A callback is notified once at most, by the thread that stores the
outcome, which goes on with the callback's code.  The futures that are complete when no work is in
flight are those that a schedule call was answered for, and those that an invocation returned and
no schedule call is just binding. -/
theorem Log.completes_exactly_once
    (run : Log client (State.start workers world kept threads) log s) :
    (∀ f, (outcomes f (events client log)).length ≤ 1) ∧
    (∀ maker ∈ log, ∀ f notify, maker.Makes f notify →
      ∀ beat ∈ log, ∀ outcome failing, beat.event client = .notified f outcome failing →
        beat.Notifies client notify f outcome) ∧
    (s.shared.inFlight = 0 → ∀ f,
      (Answered (events client log) f → ∃ outcome, Delivered client log s f outcome) ∧
      (Returned (events client log) f → ¬ Binding s f →
        ∃ outcome, Delivered client log s f outcome)) := by
  have trace := run.trace
  refine ⟨fun f => ?_, fun maker made f notify makes beat mem outcome failing event =>
    run.notifies mem made makes event, fun idle f => ⟨fun answered => ?_, fun returned free => ?_⟩⟩
  · have once := trace.notifies_le f
    rwa [tally_notifies] at once
  · have counted := trace.counted_of_answered answered
    obtain ⟨outcome, completed⟩ := trace.completed_of_counted idle counted
    obtain ⟨behalf, claimed⟩ := trace.claimed_of_counted counted
    have takes := tally_pos_of_mem (n := Event.takes f) claimed (one_self f)
    exact ⟨outcome, run.delivered_of_handed (trace.hands_of_takes f takes) completed⟩
  · obtain ⟨outcome, completed⟩ := trace.completed_of_returned idle returned fun bound =>
      free (trace.binding_of_bound bound)
    exact ⟨outcome, run.delivered_of_handed returned.2 completed⟩

theorem delivered_callAndUnit :
    (∃ outcome, Delivered (Sample.client Sample.value) (Sample.log Sample.value callAndUnit)
      (Sample.run Sample.value callAndUnit).2 1 outcome) ∧
    ∃ outcome, Delivered (Sample.client Sample.value) (Sample.log Sample.value callAndUnit)
      (Sample.run Sample.value callAndUnit).2 3 outcome := by
  have run := Sample.log_run Sample.value callAndUnit
  obtain ⟨_, _, completes⟩ := run.completes_exactly_once
  rw [Sample.events_log] at completes
  have returned : Returned (Sample.run Sample.value callAndUnit).1 1 :=
    ⟨⟨none, [], List.mem_of_getElem? (i := 3) rfl⟩, List.mem_of_getElem? (i := 17) rfl⟩
  have answered : Answered (Sample.run Sample.value callAndUnit).1 3 :=
    .inl (List.mem_of_getElem? (i := 26) rfl)
  refine ⟨(completes rfl 1).2 returned ?_, (completes rfl 3).1 answered⟩
  rintro ⟨t, mem, p, inStack, _⟩
  have none : (Sample.run Sample.value callAndUnit).2.threads.flatMap Thread.stack = [.rest] := rfl
  have frame : Frame.enter p ∈ (Sample.run Sample.value callAndUnit).2.threads.flatMap Thread.stack :=
    List.mem_flatMap.2 ⟨t, mem, inStack⟩
  rw [none] at frame
  cases List.mem_singleton.1 frame

/-- No work is in flight, and the future that the call returned has no outcome. -/
theorem returned_not_completed :
    let start := State.start 1 () [1, 2] [boundCall]
    let log := start.beats (Sample.client Sample.value) overtaken
    let s := (start.replay (Sample.client Sample.value) overtaken).2
    Log (Sample.client Sample.value) start log s ∧ s.shared.inFlight = 0 ∧
      Returned (events (Sample.client Sample.value) log) 1 ∧
      (s.shared.futures.get? 1).map Future.state = some none ∧
      outcomes 1 (events (Sample.client Sample.value) log) = [] :=
  ⟨log_beats _ _ _, rfl, ⟨⟨none, [], List.mem_of_getElem? (i := 3) rfl⟩,
    List.mem_of_getElem? (i := 17) rfl⟩, rfl, rfl⟩

end State
end Strands
