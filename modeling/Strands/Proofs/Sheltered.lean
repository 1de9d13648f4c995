/-
Work that a shutdown waits for.

Work is `Sheltered` if a client had it accepted before any shutdown began, or if it was placed or
invoked on behalf of such work, by its unit or its callback, or if it computes an argument of such
a call.  Left out are the calls whose future the client has bound to a unit of its own, as long as
the call had not bound it.  As long as no worker begins a shutdown no sheltered work is refused
(`not_refused_of_sheltered`), and after a moment of rest all of it was run
(`ran_of_sheltered`) and is complete (`completed_of_sheltered`).
-/
import Strands.Proofs.Completion
import Strands.Proofs.Finished

namespace Strands

variable {W : Type}

/-- Work that a shutdown waits for. -/
inductive Sheltered (history : List Event) : FutureId → Prop
  /-- A unit that a client had accepted before a shutdown began.  Units are counted before
  a schedule call is answered. -/
  | unit {before after : List Event} {f : FutureId} :
      history = before ++ after → Unstopped before → .counted f true ∈ before →
      Sheltered history f
  /-- A call whose future an invocation returned before a shutdown began. -/
  | call {before after : List Event} {f : FutureId} :
      history = before ++ after → Unstopped before → Returned before f → ¬ Taken history f →
      Sheltered history f
  /-- A unit that a client placed on behalf of sheltered work. -/
  | placed {f parent : FutureId} {behalf : List FutureId} :
      Sheltered history parent → .claimed f true behalf ∈ history → parent ∈ behalf →
      Sheltered history f
  | invoked {f parent : FutureId} {fault : Option Panic} {behalf : List FutureId} :
      Sheltered history parent → .opened f fault behalf ∈ history → parent ∈ behalf →
      ¬ Taken history f → Sheltered history f
  /-- A unit that computes an omitted argument of a sheltered call. -/
  | argument {d f : FutureId} :
      Sheltered history f → .argument d (some f) ∈ history → Sheltered history d

def Ran (history : List Event) (f : FutureId) : Prop :=
  .started f ∈ history ∨ ∃ receiver group, .turned receiver group f ∈ history

/-- An outcome that comes from the work itself: that of the unit, or the failure that
kept a call from being placed, which may be that of an omitted argument. -/
def Earned (history : List Event) (f : FutureId) (outcome : Outcome) : Prop :=
  .ended f outcome ∈ history ∨
  (∃ panic behalf, .opened f (some panic) behalf ∈ history ∧ outcome = .error (.ofPanic panic)) ∨
  (∃ e, (.faulted f e ∈ history ∨ .failed f e ∈ history) ∧ outcome = .error e) ∨
  ∃ d e, .argument d (some f) ∈ history ∧ .ended d (.error e) ∈ history ∧ outcome = .error e

/-- The job of a future was refused, or that of an argument of its call. -/
def Repelled (history : List Event) (f : FutureId) : Prop :=
  Refused history f ∨ ∃ d, .argument d (some f) ∈ history ∧ Refused history d

namespace State

variable {client : Client W} {workers : Nat} {world : W} {kept : List ObjectId}
  {threads : List (Code W)} {s : State W} {history : List Event}

namespace Trace

theorem sheltered_of_answered
    (trace : Trace client (State.start workers world kept threads) history s)
    {before after : List Event} {f : FutureId} (eq : history = before ++ after)
    (unstopped : Unstopped before) (answered : Answered before f) : Sheltered history f := by
  subst eq
  obtain ⟨s', trace'⟩ := trace.ofPrefix
  exact .unit rfl unstopped (trace'.counted_of_answered answered)

section

variable (trace : Trace client (State.start workers world kept threads) history s) {f : FutureId}

include trace

theorem taken_of_bound {fault : Option Panic} {behalf : List FutureId}
    (opened : .opened f fault behalf ∈ history) (bound : .bound f true ∈ s.stakes) :
    Taken history f := by
  obtain ⟨frame, ⟨p, rfl, rfl, own⟩, ⟨place⟩⟩ := trace.place bound rfl
  obtain ⟨_, context, claimed, _⟩ := place.grounded
  rw [own] at claimed
  exact ⟨⟨fault, behalf, opened⟩, context, claimed⟩

theorem unbound_of_notified (untaken : ¬ Taken history f)
    (notified : 0 < tally (Event.notifies f) history) : weigh (Stake.binds f) s.stakes = 0 := by
  have balance := trace.course_balance f untaken
  have le := weigh_le_weigh (w := Stake.binds f)
    (v := fun stake => stake.chain f + stake.work f)
    (fun stake => by cases stake <;> simp [Stake.binds, Stake.work]) s.stakes
  omega

variable (idle : s.shared.inFlight = 0) (calm : ¬ Refused history f)

include idle calm

theorem finished_of_claimed {behalf : List FutureId} (claimed : .claimed f true behalf ∈ history)
    (bound : ∀ byClient, .bound f byClient ∉ s.stakes) :
    Finished history f ∧ 0 < tally (Event.claims f) history := by
  have takes := tally_pos_of_mem (n := Event.takes f) claimed (one_self f)
  have claims := tally_pos_of_mem (n := Event.claims f) claimed (one_self f)
  have handed := trace.hands_of_takes f takes
  have awaited := trace.not_awaited_of_handed handed
  have unbound : ¬ 0 < weigh (Stake.binds f) s.stakes := fun pos => by
    obtain ⟨stake, mem, pos⟩ := weigh_pos pos
    cases stake with
    | bound g byClient =>
      obtain rfl : g = f := one_pos pos
      exact bound byClient mem
    | _ => cases pos
  refine ⟨trace.finished idle calm awaited (by omega) ?_, claims⟩
  exact trace.idle_notifies idle awaited (trace.not_spare_of_handed handed) (bound true)
    (.inr claims)

theorem finished_of_opened {fault : Option Panic} {behalf : List FutureId}
    (opened : .opened f fault behalf ∈ history) (awaited : ¬ Awaited history s f)
    (untaken : ¬ Taken history f) : Finished history f := by
  have spare : ¬ Spare history f := by
    rintro (⟨call, mem⟩ | mem)
    · cases trace.eq_of_births f opened mem (one_self f) (one_self f)
    · cases trace.eq_of_births f opened mem (one_self f) (one_self f)
  have begins := tally_pos_of_mem (n := Event.begins f) opened (one_self f)
  have notified := trace.idle_notifies idle awaited spare
    (fun bound => untaken (trace.taken_of_bound opened bound)) (.inl begins)
  exact trace.finished idle calm awaited (trace.unbound_of_notified untaken notified) notified

/-- The unit that computes an argument has run its course. -/
theorem finished_of_argument {call : FutureId} (argument : .argument f (some call) ∈ history) :
    Finished history f ∧ ¬ Taken history f := by
  have untaken : ¬ Taken history f := by
    rintro ⟨⟨fault, behalf, opened⟩, _⟩
    cases trace.eq_of_births f argument opened (one_self f) (one_self f)
  have awaited : ¬ Awaited history s f := by
    rintro ⟨place⟩
    rcases place.grounded with created | ⟨fault, behalf, opened, _⟩
    · cases trace.eq_of_births f argument created (one_self f) (one_self f)
    · cases trace.eq_of_births f argument opened (one_self f) (one_self f)
  have births := tally_pos_of_mem (n := Event.births f) argument (one_self f)
  obtain ⟨u, found⟩ := trace.exists_record f births
  -- Until it is complete, its callback holds a share of the count for the call.
  have complete : u.state ≠ none := fun pending => by
    have waits := (trace.recorded.argument f u call found).2 ⟨pending, argument⟩
    obtain ⟨callback, own, of⟩ := Option.bind_eq_some_iff.1 waits
    cases callback with
    | argument r =>
      have held : .call call ∈ u.stakes := by
        simp only [Callback.call?] at of
        simp [Future.stakes, own, Next.stakes, of]
      have mem : u ∈ s.shared.futures := by
        cases f with
        | zero => cases found
        | succ n => exact List.mem_of_getElem? found
      have shared : .call call ∈ s.stakes :=
        List.mem_append_right _ (List.mem_append_right _ (List.mem_flatMap.2 ⟨u, mem, held⟩))
      cases trace.not_share idle shared
    | _ => cases of
  have notified : 0 < tally (Event.notifies f) history := by
    rw [tally_notifies, trace.recorded.outcomes, found]
    cases state : u.state with
    | none => exact absurd state complete
    | some outcome => simp [state]
  exact ⟨trace.finished idle calm awaited (trace.unbound_of_notified untaken notified) notified,
    untaken⟩

end

end Trace

/-- Sheltered work has run its course at a moment of rest. -/
theorem Rest.finished
    (rest : Rest client (State.start workers world kept threads) history)
    (trace : Trace client (State.start workers world kept threads) history s) {f : FutureId}
    (sheltered : Sheltered history f) : Finished rest.before f ∧
      (0 < tally (Event.claims f) rest.before ∨ ¬ Taken history f) := by
  obtain ⟨earlier, later, rfl, s₀, trace₀, idle, calm, first⟩ := rest
  induction sheltered with
  | @unit before after f eq unstopped counted =>
    obtain ⟨c, rfl⟩ := first before after eq unstopped
    have counted' : .counted f true ∈ before ++ c := List.mem_append_left _ counted
    obtain ⟨behalf, claimed⟩ := trace₀.claimed_of_counted counted'
    exact (trace₀.finished_of_claimed idle (calm f) claimed fun _ =>
      trace₀.not_bound_of_counted counted').imp_right .inl
  | @call before after f eq unstopped returned untaken =>
    obtain ⟨c, rfl⟩ := first before after eq unstopped
    obtain ⟨⟨fault, behalf, opened⟩, handed⟩ := returned
    have awaited := trace₀.not_awaited_of_handed (List.mem_append_left c handed)
    exact ⟨trace₀.finished_of_opened idle (calm f) (List.mem_append_left c opened) awaited
      fun taken => untaken taken.mono, .inr untaken⟩
  | @placed f parent behalf sheltered claimed among ih =>
    obtain ⟨finished, single⟩ := ih
    have single' := single.imp_right fun untaken taken => untaken (Taken.mono taken)
    have mem := trace.earlier_of_finished rfl finished single claimed
      (fun _ _ _ _ sound => sound) among
    -- A unit that is bound and not counted is placed by whom it was bound on behalf of.
    have bound : ∀ byClient, .bound f byClient ∉ s₀.stakes := fun byClient bound => by
      obtain ⟨frame, ⟨p, rfl, rfl, own⟩, ⟨place⟩⟩ := trace₀.place bound rfl
      obtain ⟨_, behalf', claimed', sub⟩ := place.grounded
      have same := eq_of_tally_le_one (trace₀.claims_le p.future) mem claimed'
        (by simp [Event.claims]) (by simp [Event.claims])
      injection same with _ _ same
      exact trace₀.not_context_of_finished (List.append_nil _).symm finished single' place
        (sub (same ▸ among))
    exact (trace₀.finished_of_claimed idle (calm f) mem bound).imp_right .inl
  | @invoked f parent fault behalf sheltered opened among untaken ih =>
    obtain ⟨finished, single⟩ := ih
    have single' := single.imp_right fun untaken taken => untaken (Taken.mono taken)
    have mem := trace.earlier_of_finished rfl finished single opened
      (fun _ _ _ _ sound => sound) among
    have awaited : ¬ Awaited earlier s₀ f := by
      rintro ⟨place⟩
      rcases place.grounded with created | ⟨fault', behalf', opened', sub⟩
      · cases trace₀.eq_of_births f mem created (one_self f) (one_self f)
      · cases trace₀.eq_of_births f mem opened' (one_self f) (one_self f)
        exact trace₀.not_context_of_finished (List.append_nil _).symm finished single' place
          (sub among)
    exact ⟨trace₀.finished_of_opened idle (calm f) mem awaited fun taken => untaken taken.mono,
      .inr untaken⟩
  | @argument d f sheltered argument ih =>
    obtain ⟨finished, single⟩ := ih
    have mem := trace.earlier_of_argument rfl finished argument
    obtain ⟨finished, untaken⟩ := trace₀.finished_of_argument idle (calm d) mem
    refine ⟨finished, .inr ?_⟩
    rintro ⟨⟨fault, behalf, opened⟩, _⟩
    cases trace.eq_of_births d argument opened (one_self d) (one_self d)

namespace Trace

section

variable (trace : Trace client (State.start workers world kept threads) history s)

include trace

theorem not_failed_of_argument {d : FutureId} {call : Option FutureId}
    (argument : .argument d call ∈ history) {outcome : Outcome} :
    ¬ Failed history d outcome := fun failed => by
  obtain ⟨fault, context, mem⟩ := trace.opened_of_failed failed
  cases trace.eq_of_births d argument mem (one_self d) (one_self d)

theorem origin_of_failing {d f : FutureId} {e : DomainError}
    (failing : .notified d (.error e) (some f) ∈ history) :
    .argument d (some f) ∈ history ∧
      (.ended d (.error e) ∈ history ∨ Refused history d ∧ .error e = refusal) := by
  obtain ⟨before, after, rfl⟩ := List.append_of_mem failing
  obtain ⟨moment, frame, place, origin⟩ := trace.sound
  obtain ⟨u, callback, found, pending, own, of⟩ := moment.accounts.futures.1
  have argument : .argument d (some f) ∈ before := by
    refine ((moment.trace.recorded.argument d u f found).1 ?_).2
    rw [own]
    cases callback with
    | none => cases of
    | some c => cases c with
      | argument r => exact of.symm
      | _ => cases of
  refine ⟨List.mem_append_left _ argument, ?_⟩
  rcases origin with ⟨ended, _⟩ | ⟨refused, eq⟩ | failed
  · exact .inl (List.mem_append_left _ ended)
  · exact .inr ⟨refused.append, eq⟩
  · exact absurd failed (moment.trace.not_failed_of_argument argument)

/-- An outcome is earned unless a refusal is behind it. -/
theorem earned_or_repelled {f : FutureId} {outcome : Outcome} {failing : Option FutureId}
    (notified : .notified f outcome failing ∈ history) :
    Earned history f outcome ∨ Repelled history f ∧ outcome = refusal := by
  obtain ⟨before, after, eq⟩ := List.append_of_mem notified
  have last {e : Event} (mem : e ∈ before) : e ∈ history := eq ▸ List.mem_append_left _ mem
  have split := trace
  rw [eq] at split
  obtain ⟨moment, frame, place, ⟨ended, _⟩ | ⟨refused, rfl⟩ | failed⟩ := split.sound
  · exact .inl (.inl (last ended))
  · exact .inr ⟨.inl (eq ▸ refused.append), rfl⟩
  rcases failed with ⟨panic, behalf, opened, rfl⟩ | ⟨e, mem | mem, rfl⟩ | ⟨d, e, mem, rfl⟩
  · exact .inl (.inr (.inl ⟨panic, behalf, last opened, rfl⟩))
  · exact .inl (.inr (.inr (.inl ⟨e, .inl (last mem), rfl⟩)))
  · exact .inl (.inr (.inr (.inl ⟨e, .inr (last mem), rfl⟩)))
  · obtain ⟨argument, ended | ⟨refused, same⟩⟩ := trace.origin_of_failing (last mem)
    · exact .inl (.inr (.inr (.inr ⟨d, e, argument, ended, rfl⟩)))
    · exact .inr ⟨.inr ⟨d, argument, refused⟩, same⟩

/-- The outcome of a future that is complete. -/
theorem earned_of_completed {f : FutureId} {outcome : Outcome}
    (completed : Completed history s f outcome) :
    Earned history f outcome ∨ Repelled history f ∧ outcome = refusal := by
  obtain ⟨u, found, state, returned, all⟩ := completed
  have mem : outcome ∈ outcomes f history := by
    rw [all]
    exact List.mem_singleton.2 rfl
  obtain ⟨failing, notice⟩ := mem_outcomes.1 mem
  exact trace.earned_or_repelled notice

variable (graceful : .shutdown true ∉ history)

include graceful

theorem not_refused_of_sheltered {f : FutureId} (sheltered : Sheltered history f) :
    ¬ Refused history f := fun refused => by
  obtain ⟨futures, closed⟩ := trace.closed_of_refused refused
  obtain ⟨rest⟩ := trace.rest graceful (.inl (trace.idle_of_closed graceful closed))
  obtain ⟨finished, single⟩ := rest.finished trace sheltered
  exact trace.not_refused_of_finished rest.eq finished single refused

theorem not_repelled_of_sheltered {f : FutureId} (sheltered : Sheltered history f) :
    ¬ Repelled history f := by
  rintro (refused | ⟨d, argument, refused⟩)
  · exact trace.not_refused_of_sheltered graceful sheltered refused
  · exact trace.not_refused_of_sheltered graceful (.argument sheltered argument) refused

variable (waited : .idle ∈ history ∨ s.shared.inFlight = 0) {f : FutureId}
  (sheltered : Sheltered history f)

include waited sheltered

theorem ran_of_sheltered {byClient : Bool} {behalf : List FutureId}
    (claimed : .claimed f byClient behalf ∈ history) :
    Ran history f ∧ ∃ outcome, .ended f outcome ∈ history := by
  obtain ⟨rest⟩ := trace.rest graceful waited
  obtain ⟨finished, single⟩ := rest.finished trace sheltered
  have claims := tally_pos_of_mem (n := Event.claims f) claimed (one_self f)
  have ends := trace.ends_of_finished rest.eq finished single claims
  have law := trace.unit_law f
  have runs : 0 < tally (Event.runs f) history := by omega
  refine ⟨?_, ?_⟩
  · obtain ⟨e, mem, pos⟩ := tally_pos runs
    cases e with
    | started g => exact .inl (one_pos pos ▸ mem)
    | turned receiver group g => exact .inr ⟨receiver, group, one_pos pos ▸ mem⟩
    | _ => cases pos
  · obtain ⟨e, mem, pos⟩ := tally_pos ends
    obtain ⟨outcome, rfl⟩ := Event.of_ends pos
    exact ⟨outcome, mem⟩

/-- Unless a worker shuts down, sheltered work is completed with an outcome of its own. -/
theorem completed_of_sheltered :
    ∃ outcome, Completed history s f outcome ∧ Earned history f outcome := by
  obtain ⟨rest⟩ := trace.rest graceful waited
  obtain ⟨finished, _⟩ := rest.finished trace sheltered
  have notified := finished.notified
  have announced := finished.announced
  have announced' : .announced f ∈ history := by
    obtain ⟨e, mem, pos⟩ := tally_pos announced
    rw [rest.eq]
    exact List.mem_append_left _ (Event.of_announces pos ▸ mem)
  have notified' : 0 < tally (Event.notifies f) history := by
    rw [rest.eq, tally_append]
    omega
  obtain ⟨outcome, completed⟩ := trace.completed_of_announced notified' announced'
  exact ⟨outcome, completed, (trace.earned_of_completed completed).resolve_right fun repelled =>
    trace.not_repelled_of_sheltered graceful sheltered repelled.1⟩

end

end Trace

end State
end Strands
