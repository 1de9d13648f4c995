/-
Receivers that panic when they are asked for their type.

Whichever of its questions the receiver of a call panics at, the call replies with a future
and with nothing else (`Calling.Contained`).  If the receiver panicked, that future has failed
with the panic and its callback was told so, the call has left nothing behind, and neither
its method nor an expression for an argument is ever run (`Calling.Undone`).  Otherwise the
call has done what it does for a receiver that never panics, and goes on like that
(`Calling.Proceeds`).
-/
import Strands.Proofs.Activity
import Strands.Proofs.BellLock
import Strands.Proofs.Underway

namespace Strands

variable {W : Type}

namespace Calling

variable (d : Calling W)

/-! ## What becomes of a call -/

def others (log : List (Beat W)) : List (Beat W) := log.filter fun beat => !d.owns beat

/-- A client's code has the thread of the call. -/
inductive Lends : List (Frame W) → Prop
  /-- The callback runs, or something that it has asked for. -/
  | callback {g : FutureId} {above rest : List (Frame W)} : above ≠ [] → d.Outer rest →
      Lends (above ++ .announce g :: rest)
  /-- The receiver does something before it answers. -/
  | answer {site : Site W} {code : Code W} {rest : List (Frame W)} : code.result? = none →
      d.Outer rest → Lends (.running (.query d.receiver site) code :: rest)
  /-- Something runs that the receiver has asked for before it answers. -/
  | request {site : Site W} {next : Reply → Code W} {above rest : List (Frame W)} : d.Outer rest →
      Lends (above ++ .waiting (.query d.receiver site) next :: rest)

/-- What has become of a call whose receiver panicked. -/
structure Undone (client : Client W) (f : FutureId) (panic : Panic) (s₀ : State W)
    (before during : List (Beat W)) (s : State W) : Prop where
  /-- The call failed at one of the questions, and has told of nothing but what that takes. -/
  told : Foiled f panic (d.told client during)
  /-- The callback was notified of the panic. -/
  delivered : ∃ beat ∈ during, beat.Notifies client d.callback f (.error (.ofPanic panic))
  /-- The future has failed, and its callback is notified of nothing else. -/
  failed : ∀ later s', State.Log client s later s' →
    Completed (events client (before ++ during ++ later)) s' f (.error (.ofPanic panic))
  /-- Work in flight is what it would be without the call. -/
  flight : s.shared.inFlight + tally Event.givesShare (events client (d.others during)) =
    s₀.shared.inFlight + tally Event.takesShare (events client (d.others during))
  /-- Nothing was queued and no group was made. -/
  still : ∀ beat ∈ d.own during, ∀ choice s',
    beat.s.step client beat.thread choice = some s' → s'.shared.queue = beat.s.shared.queue ∧
      s'.shared.groups = beat.s.shared.groups ∧ s'.shared.table = beat.s.shared.table
  /-- No argument of the call is ever computed. -/
  uncomputed : ∀ later s', State.Log client s later s' →
    ∀ g, .argument g (some f) ∉ events client (before ++ during ++ later)
  /-- The call is never made: the future runs a unit of a client's own at most. -/
  unmade : ∀ later s', State.Log client s later s' →
    ∀ job code, .started job code ∈ deeds client (before ++ during ++ later) → job.future = f →
      ∃ work, job.task = .work work

/-- What has become of a call whose receiver answered all questions. -/
structure Proceeds (client calm : Client W) (f : FutureId) (before during : List (Beat W))
    (s : State W) : Prop where
  /-- The call has done what it does for a client whose objects do not panic. -/
  same : ∀ beat ∈ d.own during, ∀ choice,
    beat.s.step client beat.thread choice = beat.s.step calm beat.thread choice
  /-- The receiver is not asked for the call any more. -/
  unfaulted : ∀ later s', State.Log client s later s' →
    ∀ δ ∈ deeds client (before ++ during ++ later), ¬ δ.Faults f

/-- A receiver that panics does the thread of a call no harm. -/
structure Contained (client calm : Client W) (k : Nat) (payload : Nat → Panic) (s₀ : State W)
    (before during : List (Beat W)) (s : State W) : Prop where
  /-- The call takes so many steps at most. -/
  short : (d.own during).length ≤ 22
  /-- The call never unwinds: what waits for its reply stays. -/
  stays : s.stackOf d.thread = d.begun ∨
    .waiting d.role d.next :: d.below <:+ s.stackOf d.thread
  /-- The call goes on, but while a client's code runs, and while the bell that it is to ring is
  locked by a thread that goes on. -/
  goes : ∀ choice, (∃ s', s.step client d.thread choice = some s') ∨
    (s.acting d.thread = some .ring ∧ ∃ keeper s', s.shared.bell.owner = some keeper ∧
      s.step client keeper choice = some s') ∨
    d.Lends (s.stackOf d.thread)
  /-- The call replies with its future. -/
  replies : ∀ reply, s.stackOf d.thread = d.replies reply → ∃ f, reply = .future f ∧
    d.Made (deeds client during) f ∧
    (∀ n, (d.trail client k during).late = some n →
      d.Undone client f (payload n) s₀ before during s) ∧
    ((d.trail client k during).late = none → d.Proceeds client calm f before during s)

end Calling

/-! ## Steps that leave no trace -/

section Still

variable {client : Client W} {sight : Sight} {choice : Choice} {s : Shared W} {frame : Frame W}
  {p : Progress W}

theorem Role.ended_still {role : Role W} {result : Except Panic Outcome} :
    (role.ended client s result).shared.queue = s.queue ∧
      (role.ended client s result).shared.groups = s.groups ∧
      (role.ended client s result).shared.table = s.table := by
  cases role with
  | query object site =>
    cases result with
    | ok outcome => cases site <;> exact ⟨rfl, rfl, rfl⟩
    | error panic => exact ⟨rfl, rfl, rfl⟩
  | _ => exact ⟨rfl, rfl, rfl⟩

theorem Frame.step_still (still : frame.isStill = true)
    (taken : frame.step client sight choice s = some p) :
    p.shared.queue = s.queue ∧ p.shared.groups = s.groups ∧ p.shared.table = s.table := by
  cases frame with
  | running role code =>
    cases code with
    | finish outcome | panic payload => cases taken; exact Role.ended_still
    | _ => cases still
  | settle f outcome =>
    cases taken
    simp only [settleStep]
    split <;> exact ⟨rfl, rfl, rfl⟩
  | deliver reply => cases taken; cases reply <;> exact ⟨rfl, rfl, rfl⟩
  | query | openCall | track | announce | leave | dropHandle | letGo =>
    cases taken
    exact ⟨rfl, rfl, rfl⟩
  | _ => cases still

end Still

section Unaware

variable {client : Client W} {object : ObjectId} {k : Nat} {payload : Nat → Panic}

theorem Frame.step_panicsFrom {sight : Sight} {choice : Choice} {s : Shared W} {frame : Frame W}
    (early : frame.late? object k s = none) :
    frame.step (client.panicsFrom object k payload) sight choice s =
      frame.step client sight choice s := by
  cases frame with
  | running role code => cases code <;> rfl
  | query asked site =>
    have answers : ¬ (asked = object ∧ k ≤ s.timesAsked asked + 1) := by
      rintro ⟨rfl, late⟩
      simp [late?, late] at early
    simp only [step, queryStep, Client.panicsFrom, answers, if_false]
  | _ => rfl

variable {s : State W} {thread : ThreadId} {choice : Choice}

theorem State.step_panicsFrom {frame : Frame W} {rest : List (Frame W)}
    (stack : s.stackOf thread = frame :: rest) (early : frame.late? object k s.shared = none) :
    s.step (client.panicsFrom object k payload) thread choice = s.step client thread choice := by
  obtain ⟨t, found, eq⟩ := exists_of_stackOf stack
  have same : stackStep (client.panicsFrom object k payload) (s.sight thread t.worker) choice
      s.shared (frame :: rest) =
        stackStep client (s.sight thread t.worker) choice s.shared (frame :: rest) := by
    cases frame with
    | deliver reply =>
      cases rest with
      | nil => rfl
      | cons second rest => cases second <;> rfl
    | _ =>
      simp only [stackStep]
      rw [Frame.step_panicsFrom early]
  simp only [step, found, eq, same]

end Unaware

section Foils

variable {f : FutureId} {panic : Panic} {told : List Event}

theorem Foiled.notified (foiled : Foiled f panic told) :
    .notified f (.error (.ofPanic panic)) none ∈ told := by
  cases foiled <;> simp

theorem Foiled.announced (foiled : Foiled f panic told) : .announced f ∈ told := by
  cases foiled <;> simp

/-- A call that fails gives back its share of the work in flight, if it has taken one. -/
theorem Foiled.balance (foiled : Foiled f panic told) :
    tally Event.takesShare told = tally Event.givesShare told := by
  cases foiled <;> rfl

end Foils

/-! ## The call's own steps -/

namespace Calling

variable {d : Calling W} {client : Client W} {log : List (Beat W)} {beat : Beat W} {k : Nat}

theorem mem_own (mem : beat ∈ d.own log) : beat ∈ log ∧ beat.thread = d.thread ∧
    ∃ frame rest, beat.s.stackOf d.thread = frame :: rest := by
  obtain ⟨inLog, own⟩ := List.mem_filter.1 mem
  simp only [owns, Bool.and_eq_true, beq_iff_eq] at own
  obtain ⟨thread, own⟩ := own
  refine ⟨inLog, thread, List.exists_cons_of_ne_nil fun nil => ?_⟩
  rw [nil] at own
  cases own

theorem length_acted : (d.trail client k log).acted.length = (d.own log).length := by
  have acts {own : List (Beat W)} (all : ∀ beat ∈ own, (beat.s.acting d.thread).isSome) :
      (own.filterMap fun beat => beat.s.acting d.thread).length = own.length := by
    induction own with
    | nil => rfl
    | cons first others ih =>
      obtain ⟨frame, acting⟩ := Option.isSome_iff_exists.1 (all first List.mem_cons_self)
      have rest := ih fun beat mem => all beat (List.mem_cons_of_mem _ mem)
      simp only [List.filterMap_cons, acting, List.length_cons, rest]
  refine acts fun beat mem => ?_
  obtain ⟨_, _, frame, rest, stack⟩ := mem_own mem
  rw [State.acting_of_stackOf stack]
  rfl

/-- What is still leaves no trace in a step of the call's own. -/
theorem still_of_acted (still : ∀ frame ∈ (d.trail client k log).acted, frame.isStill = true)
    (mem : beat ∈ d.own log) {choice : Choice} {s' : State W}
    (taken : beat.s.step client beat.thread choice = some s') :
    s'.shared.queue = beat.s.shared.queue ∧ s'.shared.groups = beat.s.shared.groups ∧
      s'.shared.table = beat.s.shared.table := by
  obtain ⟨_, thread, frame, rest, stack⟩ := mem_own mem
  obtain ⟨here, _⟩ := beat
  obtain rfl := thread
  have acted : frame ∈ (d.trail client k log).acted :=
    List.mem_filterMap.2 ⟨_, mem, State.acting_of_stackOf stack⟩
  obtain ⟨acted'⟩ := State.step_cases taken
  have whole := stack.symm.trans acted'.stackOf_eq
  have shared := acted'.shared'
  have move := acted'.move
  rw [shared]
  generalize acted'.progress = p at move
  generalize acted'.top = top at move whole
  cases move with
  | receive reply role next => cases reply <;> exact ⟨rfl, rfl, rfl⟩
  | pass reply held => exact ⟨rfl, rfl, rfl⟩
  | act moved =>
    cases whole
    exact Frame.step_still (still frame acted) moved

/-! ## What the stages say -/

section Stages

variable {payload : Nat → Panic} {ds : List (Deed W)} {trail : Trail W} {stack : List (Frame W)}
  {f : FutureId}

theorem suffix_base : .waiting d.role d.next :: d.below <:+ d.base := List.suffix_cons _ _

theorem suffix_reply : .waiting d.role d.next :: d.below <:+ d.reply f :=
  suffix_base.trans (List.suffix_cons _ _)

theorem Asks.suffix {told : List Event} {site : Site W} {rest : List (Frame W)}
    (asks : d.Asks ds told site rest) : .waiting d.role d.next :: d.below <:+ rest := by
  cases asks with
  | metadata => exact suffix_base
  | lane | omitted | expressions => exact suffix_reply

/-- What waits for the reply is below whatever the thread does for the call. -/
theorem Stage.stays (stage : d.Stage payload ds trail stack) :
    stack = d.begun ∨ .waiting d.role d.next :: d.below <:+ stack := by
  cases stage with
  | begun => exact .inl rfl
  | asks asks | answers asks | panics _ asks =>
    exact .inr (asks.suffix.trans (List.suffix_cons _ _))
  | hears above asks =>
    exact .inr ((asks.suffix.trans (List.suffix_cons _ _)).trans (List.suffix_append _ _))
  | opens | faults => exact .inr (suffix_base.trans (List.suffix_cons _ _))
  | tracks => exact .inr (suffix_reply.trans (List.suffix_cons _ _))
  | errands => exact .inr (suffix_reply.trans (List.suffix_append _ _))
  | notifies above =>
    exact .inr (((suffix_reply.trans (List.suffix_append _ _)).trans (List.suffix_cons _ _)).trans
      (List.suffix_append _ _))
  | replies => exact .inr (List.suffix_cons _ _)

theorem Stage.short (stage : d.Stage payload ds trail stack) : trail.acted.length ≤ 22 := by
  cases stage with
  | begun asking | opens _ asking => have := asking.short; omega
  | asks _ asking | answers _ asking | faults _ _ asking => have := asking.short; omega
  | hears _ _ asking | panics _ _ asking => have := asking.short; omega
  | tracks _ _ _ asking => have := asking.short; omega
  | errands _ _ _ short => omega
  | notifies _ _ _ _ short => omega
  | replies _ _ short => exact short

/-- The thread can go on with the call, unless it runs a client's code. -/
theorem Stage.goes {s : State W} (choice : Choice)
    (stage : d.Stage payload ds trail (s.stackOf d.thread)) :
    (∃ s', s.step client d.thread choice = some s') ∨
      (s.acting d.thread = some .ring ∧ s.shared.bell.owner ≠ none) ∨
      d.Lends (s.stackOf d.thread) := by
  generalize stack : s.stackOf d.thread = frames at stage
  have acts {frame : Frame W} {rest : List (Frame W)} (eq : frames = frame :: rest)
      (notReply : ∀ reply, frame ≠ .deliver reply)
      (can : ∀ sight, ∃ p, frame.step client sight choice s.shared = some p) :
      ∃ s', s.step client d.thread choice = some s' :=
    State.exists_step (stack.trans eq) notReply can
  cases stage with
  | begun | asks | opens | faults | tracks | panics =>
    exact .inl (acts rfl (by rintro reply ⟨⟩) fun sight => ⟨_, rfl⟩)
  | @answers told site rest code asks asking sober =>
    cases ended : code.result? with
    | none => exact .inr (.inr (.answer ended asks.outer))
    | some result =>
      obtain rfl := Code.eq_ending_of_result? ended
      exact .inl (acts rfl (by rintro reply ⟨⟩) fun sight => by cases result <;> exact ⟨_, rfl⟩)
  | hears above asks => exact .inr (.inr (.request asks.outer))
  | @errands f errands made all asked short =>
    cases errands with
    | nil =>
      obtain ⟨s', taken, _⟩ : ∃ s', s.step client d.thread choice = some s' ∧ _ :=
        State.can_pass stack
      exact .inl ⟨s', taken⟩
    | cons frame rest =>
      have errand : frame.isErrand = true := (errands_cons.1 all).1
      by_cases free : frame = .ring → s.shared.bell.owner = none
      · exact .inl (acts rfl (by rintro reply rfl; cases errand) fun sight =>
          Frame.errand_can client sight choice errand free)
      · obtain ⟨rfl, locked⟩ := Classical.not_imp.1 free
        exact .inr (.inl ⟨State.acting_of_stackOf stack, locked⟩)
  | notifies above made all asked short =>
    cases above with
    | nil => exact .inl (acts rfl (by rintro reply ⟨⟩) fun sight => ⟨_, rfl⟩)
    | cons first above => exact .inr (.inr (.callback (by simp) (outer_errands all)))
  | replies =>
    obtain ⟨s', taken, _⟩ : ∃ s', s.step client d.thread choice = some s' ∧ _ :=
      State.can_receive stack
    exact .inl ⟨s', taken⟩

/-- The call replies with its future, once the receiver is not asked any more. -/
theorem Stage.of_replies {reply : Reply} (stage : d.Stage payload ds trail (d.replies reply)) :
    ∃ f, reply = .future f ∧ d.Made ds f ∧ Asked payload ds trail f [] := by
  generalize eq : d.replies reply = stack at stage
  have length : stack.length = d.below.length + 2 := by rw [← eq]; rfl
  cases stage with
  | begun | asks | answers | panics | opens | faults | tracks => cases eq
  | hears above asks =>
    have long := asks.suffix.length_le
    cases above with
    | nil => cases eq
    | cons first above =>
      simp only [List.cons_append, List.length_cons, List.length_append] at length long
      omega
  | errands | notifies =>
    simp only [List.length_append, List.length_cons, Calling.reply, Calling.base] at length
    omega
  | replies made asked =>
    cases eq
    exact ⟨_, rfl, made, asked⟩

end Stages

/-! ## Calls that fail -/

section Failing

variable {f : FutureId} {panic : Panic}

theorem mem_of_told {e : Event} (mem : e ∈ d.told client log) :
    ∃ beat ∈ log, beat.event client = e := by
  obtain ⟨beat, own, event⟩ := List.mem_map.1 (List.mem_of_mem_filter mem)
  exact ⟨beat, (List.mem_filter.1 own).1, event⟩

variable (d client) in
theorem tally_told {n : Event → Nat} (plain : n .other = 0) (log : List (Beat W)) :
    tally n (d.told client log) + tally n (events client (d.others log)) =
      tally n (events client log) := by
  induction log with
  | nil => rfl
  | cons beat log ih =>
    rw [events_cons, tally_cons, ← ih]
    cases own : d.owns beat with
    | false => simp [told, Calling.own, others, own, events_cons, Nat.add_left_comm]
    | true =>
      have cons : d.told client (beat :: log) =
          ([beat.event client].filter fun e => !e.isOther) ++ d.told client log := by
        simp only [told, Calling.own, List.filter_cons_of_pos own, List.map_cons]
        exact List.filter_append [_] _
      have event : tally n ([beat.event client].filter fun e => !e.isOther) =
          n (beat.event client) := by
        cases beat.event client <;> simp [Event.isOther, plain]
      rw [cons, tally_append, event, Nat.add_assoc]
      simp [others, own]

section Run

variable {workers : Nat} {world : W} {kept : List ObjectId} {threads : List (Code W)}
  {s₀ s : State W} {before during : List (Beat W)}

theorem mem_deeds_during {δ : Deed W} (mem : δ ∈ deeds client during) (later : List (Beat W)) :
    δ ∈ deeds client (before ++ during ++ later) :=
  mem_deeds_left (mem_deeds_right _ mem) _

/-- What has become of a call whose receiver panicked. -/
theorem Underway.undone
    (underway : d.Underway client (State.start workers world kept threads) s₀ before during s)
    (made : d.Made (deeds client during) f) (faults : ∃ δ ∈ deeds client during, δ.Faults f)
    (foiled : Foiled f panic (d.told client during))
    (still : ∀ frame ∈ (d.trail client k during).acted, frame.isStill = true) :
    d.Undone client f panic s₀ before during s := by
  obtain ⟨run, _, going, _⟩ := underway
  have whole := run.append going
  obtain ⟨metadata, fault, opened⟩ := made
  obtain ⟨δ, inDuring, faults⟩ := faults
  have inEvents {e : Event} (mem : e ∈ d.told client during) (later : List (Beat W)) :
      e ∈ events client (before ++ during ++ later) := by
    obtain ⟨beat, inLog, rfl⟩ := mem_of_told mem
    exact mem_events_left (mem_events_right _ (List.mem_map.2 ⟨beat, inLog, rfl⟩)) _
  refine ⟨foiled, ?_, fun later s' next => ?_, ?_, fun beat own choice s' taken => ?_,
    fun later s' next g => ?_, fun later s' next job code started own => ?_⟩
  · obtain ⟨beat, inLog, event⟩ := mem_of_told foiled.notified
    refine ⟨beat, inLog, ?_⟩
    have there : .opened f d.call metadata fault ∈ deeds client (before ++ during) :=
      mem_deeds_right _ opened
    exact whole.delivers there (List.mem_append_right _ inLog) event
  · exact (whole.append next).trace.completed_of_notified (inEvents foiled.notified later)
      (inEvents foiled.announced later)
  · have start := run.trace.flight_law
    have now := whole.trace.flight_law
    have takes := tally_told d client (n := Event.takesShare) rfl during
    have gives := tally_told d client (n := Event.givesShare) rfl during
    have balance := foiled.balance
    rw [events_append, tally_append, tally_append] at now
    omega
  · exact still_of_acted still own taken
  · exact (whole.append next).not_argument_of_faults (mem_deeds_during inDuring later) faults g
  · obtain ⟨p, bound, rfl⟩ := (whole.append next).vouched.deeds _ started
    exact (whole.append next).not_made_of_faults (mem_deeds_during inDuring later) faults bound own

theorem Underway.proceeds {payload : Nat → Panic}
    (underway : d.Underway (client.panicsFrom d.receiver k payload)
      (State.start workers world kept threads) s₀ before during s)
    (early : (d.trail (client.panicsFrom d.receiver k payload) k during).late = none)
    (answers : ∃ δ ∈ deeds (client.panicsFrom d.receiver k payload) during, δ.Answers f) :
    d.Proceeds (client.panicsFrom d.receiver k payload) client f before during s := by
  obtain ⟨run, _, going, _⟩ := underway
  refine ⟨fun beat own choice => ?_, fun later s' next => ?_⟩
  · obtain ⟨_, thread, frame, rest, stack⟩ := mem_own own
    have unasked := List.findSome?_eq_none_iff.1 early beat own
    rw [State.acting_of_stackOf stack, Option.bind_some] at unasked
    rw [thread]
    exact State.step_panicsFrom stack unasked
  · obtain ⟨δ, inDuring, answers⟩ := answers
    exact ((run.append going).append next).calm_of_answered
      (mem_deeds_during inDuring later) answers

/-- A receiver that panics from its `k`-th question on does the thread of a call no harm. -/
theorem Underway.contained {payload : Nat → Panic}
    (underway : d.Underway (client.panicsFrom d.receiver k payload)
      (State.start workers world kept threads) s₀ before during s)
    (calm : ∀ panic, ¬ client.CanFault d.receiver panic) :
    d.Contained (client.panicsFrom d.receiver k payload) client k payload s₀ before during s := by
  have stage := underway.stage calm
  refine ⟨length_acted (k := k) ▸ stage.short, stage.stays, fun choice => ?_,
    fun reply replied => ?_⟩
  · rcases stage.goes choice with goes | ⟨rings, locked⟩ | lends
    · exact .inl goes
    · obtain ⟨keeper, owner⟩ := Option.ne_none_iff_exists'.1 locked
      obtain ⟨s', taken⟩ := (underway.run.append underway.going).trace.keeper_goes choice owner
      exact .inr (.inl ⟨rings, keeper, s', owner, taken⟩)
    · exact .inr (.inr lends)
  rw [replied] at stage
  obtain ⟨f, rfl, made, asked⟩ := stage.of_replies
  refine ⟨f, rfl, made, fun n late => ?_, fun early => ?_⟩
  · cases asked with
    | calm none => rw [late] at none; cases none
    | foiled m first faults tells _ still =>
      obtain rfl : n = m := Option.some.inj (late.symm.trans first)
      rw [List.flatMap_nil, List.append_nil] at tells
      exact underway.undone made faults tells still
  · cases asked with
    | calm _ answers => exact underway.proceeds early answers
    | foiled m first => rw [early] at first; cases first

end Run

end Failing

end Calling

namespace State

/-! ## A call that fails -/

/-- A client makes one call. -/
def lateStart : State Unit := State.start 1 () [1] [Sample.invoke fun _ => Sample.done]

/-- Its receiver panics when it is asked for the third time, for the name of the place where
the argument is to be computed. -/
def lateClient : Client Unit := (Sample.client Sample.value).panicsFrom 1 3 fun _ => .text "no type"

def lateLog : List (Beat Unit) := lateStart.beats lateClient (List.replicate 15 1)

def lateEnd : State Unit := (lateStart.replay lateClient (List.replicate 15 1)).2

def lateCall : Calling Unit where
  thread := 1
  role := .thread
  mode := .concurrent
  invocation := { receiver := some 1, method := some "m" }
  callback _ := Sample.done
  next := Sample.withFuture fun _ => Sample.done
  below := []
  receiver := 1
  method := "m"
  hasReceiver := rfl
  hasMethod := rfl

theorem contained_lateCall :
    lateCall.Undone lateClient 1 (.text "no type") lateStart [] lateLog lateEnd := by
  have short : ∀ beat ∈ lateLog, (beat.s.stackOf 1).length ≠ 2 := by decide +kernel
  have underway : lateCall.Underway lateClient lateStart lateStart [] lateLog lateEnd := {
    run := .start
    called := rfl
    going := log_beats _ _ _
    unreplied := fun beat mem _ reply replied => short beat mem (congrArg List.length replied)
    isOpen := not_closed (by decide +kernel)
    owned := owned_of_unyielded (by decide +kernel) }
  have calm (panic : Panic) : ¬ (Sample.client Sample.value).CanFault 1 panic :=
    fun ⟨_, ends⟩ => Code.not_canEnd_of_finish ends
  obtain ⟨f, future, _, undone, _⟩ := (underway.contained calm).replies (.future 1) rfl
  cases future
  exact undone 2 (by decide +kernel)

end State
end Strands
