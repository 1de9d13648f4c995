/-
How a call goes from stage to stage.

A call is `Underway` from when it is made until its thread is about to be replied to.  All
that time its thread has one of the stages left to do, `Underway.stage`: a step of another
thread, of the callback or of what the receiver does before it answers leaves what is below,
and a step of the call's own leads to the next stage.
-/
import Strands.Proofs.Calling
import Strands.Proofs.Handles

namespace Strands

variable {W : Type}

namespace Calling

variable {d : Calling W} {client : Client W} {payload : Nat → Panic} {ds : List (Deed W)}
  {trail : Trail W}

/-! ## Steps of others -/

theorem Stage.mono {stack : List (Frame W)} (stage : d.Stage payload ds trail stack)
    (later : List (Deed W)) : d.Stage payload (ds ++ later) trail stack := by
  cases stage with
  | begun asking => exact .begun asking
  | asks asks asking => exact .asks (asks.mono later) asking
  | answers asks asking sober => exact .answers (asks.mono later) asking sober
  | hears above asks asking sober => exact .hears above (asks.mono later) asking sober
  | panics n asks asking => exact .panics n (asks.mono later) asking
  | opens metadata asking => exact .opens metadata asking
  | faults metadata n asking => exact .faults metadata n asking
  | tracks lane behalf made asking =>
    exact .tracks lane behalf (List.mem_append_left _ made) asking
  | errands made all asked short => exact .errands (made.mono later) all (asked.mono later) short
  | notifies above made all asked short =>
    exact .notifies above (made.mono later) all (asked.mono later) short
  | replies made asked short => exact .replies (made.mono later) (asked.mono later) short

/-- Whatever the call has left to do, that is some frame. -/
theorem Stage.exists_cons {stack : List (Frame W)} (stage : d.Stage payload ds trail stack) :
    ∃ frame rest, stack = frame :: rest := by
  refine List.exists_cons_of_ne_nil ?_
  cases stage <;> simp [Calling.begun, reply, Calling.replies]

/-! ## Whose step it is -/

section Owning

variable {here : State W} {f : FutureId}

theorem outer_base : d.Outer d.base := ⟨Nat.lt_succ_of_lt (Nat.lt_succ_self _), rfl⟩

theorem outer_reply : d.Outer (d.reply f) :=
  ⟨Nat.lt_succ_of_lt (Nat.lt_succ_of_lt (Nat.lt_succ_self _)), rfl⟩

theorem outer_errands {errands : List (Frame W)} (all : Errands errands) :
    d.Outer (errands ++ d.reply f) := by
  have none : errands.countP Frame.isHost = 0 := List.countP_eq_zero.2 fun frame mem host => by
    have errand := all frame mem
    cases frame with
    | waiting role next => cases errand
    | announce g => cases errand
    | _ => cases host
  obtain ⟨long, hosts⟩ := outer_reply (d := d) (f := f)
  refine ⟨?_, ?_⟩
  · rw [List.length_append]
    omega
  · rw [List.countP_append, none, Nat.zero_add, hosts]

theorem Asks.outer {told : List Event} {site : Site W} {rest : List (Frame W)}
    (asks : d.Asks ds told site rest) : d.Outer rest := by
  cases asks with
  | metadata => exact outer_base
  | lane | omitted | expressions => exact outer_reply

theorem not_owns_of_host {above rest : List (Frame W)} {host : Frame W}
    (stack : here.stackOf d.thread = above ++ host :: rest) (some : above ≠ [])
    (isHost : host.isHost = true) (outer : d.Outer rest) : d.owns ⟨here, d.thread⟩ = false := by
  obtain ⟨frame, above, rfl⟩ := List.exists_cons_of_ne_nil some
  have hosts : ¬ d.Outer (above ++ host :: rest) := fun inner => by
    have more := inner.2
    rw [List.countP_append, List.countP_cons_of_pos isHost] at more
    have own := outer.2
    omega
  simp [owns, stack, hosts]

theorem not_owns_of_isAnswering {frame : Frame W} {rest : List (Frame W)}
    (stack : here.stackOf d.thread = frame :: rest) (answering : frame.isAnswering = true) :
    d.owns ⟨here, d.thread⟩ = false := by simp [owns, stack, answering]

theorem not_owns_begun (stack : here.stackOf d.thread = d.begun) :
    d.owns ⟨here, d.thread⟩ = false := by simp [owns, stack, begun, Outer]

theorem not_owns_of_other {other : ThreadId} (different : other ≠ d.thread) :
    d.owns ⟨here, other⟩ = false := by simp [owns, different]

end Owning

/-! ## The call in a run -/

variable (d) in
/-- A thread has made the call and is not about to be replied to.  `before` is the log until
the call and `during` what has happened since. -/
structure Underway (client : Client W) (start s₀ : State W) (before during : List (Beat W))
    (s : State W) : Prop where
  run : State.Log client start before s₀
  called : s₀.stackOf d.thread = d.begun
  going : State.Log client s₀ during s
  unreplied : ∀ beat ∈ during, beat.thread = d.thread →
    ∀ reply, beat.s.stackOf d.thread ≠ d.replies reply
  /-- The runtime is open. -/
  isOpen : ∀ futures, .closed futures ∉ events client (before ++ during)
  /-- Whoever makes the call has a handle of the scheduler. -/
  owned : Owned (events client (before ++ during))

section Run

open State

variable {c : Client W} {k : Nat} {s s' : State W} {during : List (Beat W)} {choice : Choice}

theorem stage_of_own {frame : Frame W} {rest : List (Frame W)}
    (stack : s.stackOf d.thread = frame :: rest) (outer : d.Outer rest)
    (ready : frame.isAnswering = false) (notReply : ∀ reply, frame ≠ .deliver reply)
    (taken : s.step c d.thread choice = some s')
    (next : ∀ worker p,
      frame.step c (s.sight d.thread worker) choice s.shared = some p →
      d.Stage payload (deeds c during ++ [frame.deed c s.shared])
        ((d.trail c k during).snoc frame (frame.event c worker s.shared rest)
          (frame.late? d.receiver k s.shared)) (p.frames ++ rest)) :
    d.Stage payload (deeds c (during ++ [⟨s, d.thread⟩])) (d.trail c k (during ++ [⟨s, d.thread⟩]))
      (s'.stackOf d.thread) := by
  obtain ⟨worker, p, moved, _, after, event⟩ := own_event stack notReply taken
  rw [trail_snoc stack outer ready, deeds_append, deeds_cons, deeds_nil,
    deed_of_stackOf stack, after, event]
  exact next worker p moved

theorem stage_of_other {beat : Beat W} {stack : List (Frame W)} (other : d.owns beat = false)
    (stage : d.Stage payload (deeds c during) (d.trail c k during) stack) :
    d.Stage payload (deeds c (during ++ [beat])) (d.trail c k (during ++ [beat])) stack := by
  rw [trail_other other, deeds_append]
  exact stage.mono _

theorem muse_step {told : List Event} {site : Site W} {rest : List (Frame W)} {code : Code W}
    (asks : d.Asks (deeds c during) told site rest)
    (asking : (d.trail c k during).Asking told none site.callLength) (sober : code.Sober)
    (unended : code.result? = none)
    (stack : s.stackOf d.thread = .running (.query d.receiver site) code :: rest)
    (taken : s.step c d.thread choice = some s') :
    d.Stage payload (deeds c during) (d.trail c k during) (s'.stackOf d.thread) := by
  obtain ⟨worker, p, moved, _, after⟩ := own_step stack (by rintro reply ⟨⟩) taken
  rw [after]
  rcases Code.step_goes moved unended with ⟨code', frames, goes⟩ | ⟨above, next, frames, goes⟩
  · rw [frames]
    exact .answers asks asking (sober.goes goes)
  · rw [frames, List.append_assoc]
    exact .hears above asks asking fun reply => sober.goes (goes reply)

/-- A future that is about to be handed over and to be completed is still pending. -/
theorem pending_of_settle {client : Client W} {workers : Nat} {world : W} {kept : List ObjectId}
    {threads : List (Code W)} {log : List (Beat W)} {thread : ThreadId} {f : FutureId}
    {outcome : Outcome} {call : Call W} {metadata : Metadata} {fault : Option Panic}
    (run : Log client (State.start workers world kept threads) log s)
    (opened : .opened f call metadata fault ∈ deeds client log)
    (settles : .settle f outcome ∈ s.stackOf thread)
    (replies : .deliver (.future f) ∈ s.stackOf thread) :
    ∃ u, s.shared.futures.get? f = some u ∧ u.state = none ∧
      u.callback = some (.client call.callback) := by
  have trace := run.trace
  have reply : 0 < weigh (Stake.replies f) s.stakes :=
    weigh_pos_of_mem (mem_stakes_of_stackOf replies (List.mem_singleton.2 rfl)) (one_self f)
  have settle : 0 < weigh (fun stake => stake.chain f + stake.work f) s.stakes :=
    weigh_pos_of_mem (mem_stakes_of_stackOf settles (List.mem_singleton.2 rfl))
      (by simp [Stake.chain, Stake.work])
  obtain ⟨u, found, state⟩ := trace.pending_of_course f (trace.untaken_of_reply f reply) settle
  obtain ⟨v, there, callback⟩ := run.callback_of_deed opened rfl
  obtain rfl := Option.some.inj (found.symm.trans there)
  exact ⟨u, found, state, callback state⟩

variable {workers : Nat} {world : W} {kept : List ObjectId} {threads : List (Code W)}
  {s₀ : State W} {before : List (Beat W)} {thread : ThreadId}

theorem pass_own {f : FutureId} (made : d.Made (deeds c during) f)
    (asked : Asked payload (deeds c during) (d.trail c k during) f [])
    (short : (d.trail c k during).acted.length + 1 ≤ 22) (stack : s.stackOf d.thread = d.reply f)
    (taken : s.step c d.thread choice = some s') :
    d.Stage payload (deeds c (during ++ [⟨s, d.thread⟩])) (d.trail c k (during ++ [⟨s, d.thread⟩]))
      (s'.stackOf d.thread) := by
  obtain ⟨after, passed, _, replies⟩ :
      ∃ after, s.step c d.thread choice = some after ∧ _ ∧ after.stackOf d.thread = _ :=
    can_pass stack
  obtain rfl := Option.some.inj (passed.symm.trans taken)
  have event : s.event c d.thread = .other := by
    obtain ⟨t, found, eq⟩ := exists_of_stackOf stack
    rw [State.event, found]
    simp only [eq]
    rfl
  rw [trail_snoc stack outer_base rfl, deeds_append, deeds_cons, deeds_nil, event, replies]
  exact pass_step made asked short

/-- A step of the thread itself, once the receiver is not asked any more. -/
theorem Underway.errand_step
    (underway : d.Underway c (State.start workers world kept threads) s₀ before during s)
    {f : FutureId} {errands : List (Frame W)} (made : d.Made (deeds c during) f)
    (all : Errands errands)
    (asked : Asked payload (deeds c during) (d.trail c k during) f errands)
    (short : (d.trail c k during).acted.length + weigh Frame.errandLength errands + 1 ≤ 22)
    (stack : s.stackOf d.thread = errands ++ d.reply f)
    (kept : s.event c d.thread ≠ .handleDropped true)
    (taken : s.step c d.thread choice = some s') :
    d.Stage payload (deeds c (during ++ [⟨s, d.thread⟩])) (d.trail c k (during ++ [⟨s, d.thread⟩]))
      (s'.stackOf d.thread) := by
  cases errands with
  | nil => exact pass_own made asked short stack taken
  | cons frame rest =>
    have errand : frame.isErrand = true := (errands_cons.1 all).1
    have notReply : ∀ reply, frame ≠ .deliver reply := by rintro reply rfl; cases errand
    have ready : frame.isAnswering = false := by cases frame <;> first | rfl | cases errand
    have unasked : frame.late? d.receiver k s.shared = none := by
      cases frame <;> first | rfl | cases errand
    have whole := underway.run.append underway.going
    have isOpen : s.shared.queue.closed = false := by
      cases closed : s.shared.queue.closed with
      | false => rfl
      | true =>
        obtain ⟨futures, mem⟩ := whole.trace.closed_of_queue closed
        exact absurd mem (underway.isOpen futures)
    obtain ⟨worker, _, _, _, _, event⟩ := own_event stack notReply taken
    have more : frame = .dropHandle → s.shared.handles ≠ 1 := by
      rintro rfl last
      refine kept (event.trans ?_)
      simp [Frame.event, last]
    refine stage_of_own stack (outer_errands (errands_cons.1 all).2) ready notReply taken
      fun worker p moved => ?_
    rw [unasked]
    cases asked with
    | calm late answers => exact calm_step isOpen more made all late answers short moved
    | foiled n late faults tells undoes still =>
      refine foiled_step more ?_ made all late faults tells undoes still short moved
      rintro outcome rfl
      obtain ⟨metadata, fault, opened⟩ := made
      have inStack {frame : Frame W} (mem : frame ∈ .settle f outcome :: rest ++ d.reply f) :
          frame ∈ s.stackOf d.thread := by rwa [stack]
      have there : .opened f d.call metadata fault ∈ deeds c (before ++ during) :=
        mem_deeds_right _ opened
      exact pending_of_settle whole there (inStack List.mem_cons_self)
        (inStack (List.mem_append_right _ List.mem_cons_self))

/-- A step of the thread itself. -/
theorem Underway.own_step
    (underway : d.Underway (client.panicsFrom d.receiver k payload)
      (State.start workers world kept threads) s₀ before during s)
    (calm : ∀ panic, ¬ client.CanFault d.receiver panic)
    (stage : d.Stage payload (deeds (client.panicsFrom d.receiver k payload) during)
      (d.trail (client.panicsFrom d.receiver k payload) k during) (s.stackOf d.thread))
    (unreplied : ∀ reply, s.stackOf d.thread ≠ d.replies reply)
    (kept : s.event (client.panicsFrom d.receiver k payload) d.thread ≠ .handleDropped true)
    (taken : s.step (client.panicsFrom d.receiver k payload) d.thread choice = some s') :
    d.Stage payload
      (deeds (client.panicsFrom d.receiver k payload) (during ++ [⟨s, d.thread⟩]))
      (d.trail (client.panicsFrom d.receiver k payload) k (during ++ [⟨s, d.thread⟩]))
      (s'.stackOf d.thread) := by
  generalize stack : s.stackOf d.thread = frames at stage
  cases stage with
  | begun asking =>
    obtain ⟨worker, p, moved, _, after⟩ := State.own_step stack (by rintro reply ⟨⟩) taken
    refine stage_of_other (not_owns_begun stack) ?_
    rw [after]
    exact begun_step asking moved
  | asks asks asking =>
    refine stage_of_own stack asks.outer rfl (by rintro reply ⟨⟩) taken fun worker p moved => ?_
    exact (query_step calm asks asking moved).mono _
  | @answers told site rest code asks asking sober =>
    cases ended : code.result? with
    | none =>
      exact stage_of_other (not_owns_of_isAnswering stack (by simp [Frame.isAnswering, ended]))
        (muse_step asks asking sober ended stack taken)
    | some result =>
      obtain rfl := Code.eq_ending_of_result? ended
      cases result with
      | ok outcome =>
        refine stage_of_own stack asks.outer rfl (by rintro reply ⟨⟩) taken fun worker p moved => ?_
        exact answer_step asks asking moved
      | error panic => exact absurd sober Code.not_sober_panic
  | @hears told site rest next above asks asking sober =>
    cases above with
    | nil =>
      obtain ⟨worker, p, moved, _⟩ := State.own_step stack (by rintro reply ⟨⟩) taken
      cases moved
    | cons first above =>
      refine stage_of_other (not_owns_of_host stack (by simp) rfl asks.outer) ?_
      rcases step_above (by rintro reply ⟨⟩) (by rintro held ⟨⟩) stack (by simp) taken with
        ⟨above', after⟩ | ⟨reply, role, next, ⟨rfl, rfl⟩, after⟩
      · rw [after]
        exact .hears above' asks asking sober
      · rw [after]
        exact .answers asks asking (sober reply)
  | panics n asks asking =>
    refine stage_of_own stack asks.outer rfl (by rintro reply ⟨⟩) taken fun worker p moved => ?_
    exact panic_step asks asking moved
  | opens metadata asking =>
    refine stage_of_own stack outer_base rfl (by rintro reply ⟨⟩) taken fun worker p moved => ?_
    exact open_step asking moved
  | faults metadata n asking =>
    refine stage_of_own stack outer_base rfl (by rintro reply ⟨⟩) taken fun worker p moved => ?_
    exact fault_step asking moved
  | tracks lane behalf made asking =>
    refine stage_of_own stack outer_reply rfl (by rintro reply ⟨⟩) taken fun worker p moved => ?_
    exact (track_step made asking moved).mono _
  | errands made all asked short => exact underway.errand_step made all asked short stack kept taken
  | @notifies f g errands above made all asked short =>
    cases above with
    | nil =>
      refine stage_of_own stack (outer_errands all) rfl (by rintro reply ⟨⟩) taken
        fun worker p moved => ?_
      exact announce_step made all asked short moved
    | cons first above =>
      refine stage_of_other (not_owns_of_host stack (by simp) rfl (outer_errands all)) ?_
      rcases step_above (by rintro reply ⟨⟩) (by rintro held ⟨⟩) stack (by simp) taken with
        ⟨above', after⟩ | ⟨reply, role, next, ⟨⟩, after⟩
      rw [after]
      exact (Stage.notifies above' made all asked short)
  | replies made asked short => exact absurd stack (unreplied _)

/-- Whatever the thread has left to do while the call is under way, it is a stage of it. -/
theorem Underway.stage
    (underway : d.Underway (client.panicsFrom d.receiver k payload)
      (State.start workers world kept threads) s₀ before during s)
    (calm : ∀ panic, ¬ client.CanFault d.receiver panic) :
    d.Stage payload (deeds (client.panicsFrom d.receiver k payload) during)
      (d.trail (client.panicsFrom d.receiver k payload) k during) (s.stackOf d.thread) := by
  obtain ⟨run, called, going, unreplied, isOpen, owned⟩ := underway
  induction going with
  | start =>
    rw [called]
    exact .begun ⟨rfl, rfl, by rintro frame ⟨⟩, Nat.le_refl _⟩
  | @step log s s' thread choice going taken ih =>
    have unreplied' : ∀ beat ∈ log, beat.thread = d.thread →
        ∀ reply, beat.s.stackOf d.thread ≠ d.replies reply :=
      fun beat mem => unreplied beat (List.mem_append_left _ mem)
    rw [← List.append_assoc, events_append] at isOpen owned
    have isOpen' futures : .closed futures ∉ events _ (before ++ log) :=
      fun mem => isOpen futures (List.mem_append_left _ mem)
    have earlier : d.Underway _ (State.start workers world kept threads) s₀ before log s :=
      ⟨run, called, going, unreplied', isOpen', owned.ofPrefix⟩
    have stage := ih unreplied' isOpen' owned.ofPrefix
    by_cases own : thread = d.thread
    · subst own
      refine earlier.own_step calm stage (unreplied ⟨s, d.thread⟩ (by simp) rfl) ?_ taken
      have whole := (run.append going).step taken
      have trace := whole.trace
      rw [events_append] at trace
      exact fun last => trace.not_last_of_owned owned (by
        rw [← last]
        exact List.mem_append_right _ List.mem_cons_self)
    · obtain ⟨acted⟩ := step_cases taken
      refine stage_of_other (not_owns_of_other own) ?_
      obtain ⟨frame, rest, eq⟩ := stage.exists_cons
      rw [acted.stackOf_other (Ne.symm own) eq, ← eq]
      exact stage

end Run

end Calling

end Strands
