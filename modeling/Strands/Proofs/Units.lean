/-
Units, with their code and their results.

`Log.unit_of_ended` is what a history cannot say of a unit that has ended: which placing
it was bound by, the code it ran, which is that of its task on its future's own strand,
and what that code ended with.  It was started once and ended once.

Strands are given to futures when these are made and are never changed: `Log.named`.
-/
import Strands.Proofs.Sheltered
import Strands.Proofs.Serial
import Strands.Proofs.Vouched

namespace Strands

variable {W : Type}

/-- What the unit of a future is to do, and its first code. -/
def Deed.startOf (f : FutureId) : Deed W → Option (Task W × Code W)
  | started job code => if job.future = f then some (job.task, code) else none
  | _ => none

def Deed.endOf (f : FutureId) : Deed W → Option (Except Panic Outcome)
  | ended job result => if job.future = f then some result else none
  | _ => none

def startsOf (client : Client W) (log : List (Beat W)) (f : FutureId) : List (Task W × Code W) :=
  (deeds client log).filterMap (Deed.startOf f)

def endsOf (client : Client W) (log : List (Beat W)) (f : FutureId) : List (Except Panic Outcome) :=
  (deeds client log).filterMap (Deed.endOf f)

/-- The code of a task, on each strand it may be given. -/
inductive Task.HasCode (client : Client W) : Task W → (Strand → Code W) → Prop
  | call {receiver : ObjectId} {method : String} {args : List Value} :
      HasCode client (.call receiver method args) fun strand =>
        client.call receiver strand method args
  | default {expression : Expression W} {args : List Value} :
      HasCode client (.default expression args) fun strand => expression strand args
  | stop {listener : ObjectId} :
      HasCode client (.stop listener) fun strand => client.call listener strand "gracefulStop" []
  | work {code : Strand → Code W} : HasCode client (.work code) code

theorem Task.hasCode_start (client : Client W) (task : Task W) :
    task.HasCode client fun strand => task.start client strand := by
  cases task with
  | call receiver method args => exact .call
  | default expression args => exact .default
  | stop listener => exact .stop
  | work code => exact .work

/-- The unit of a future was executed once: a thread went on with its code on the future's own
strand, nobody did again, and the unit ended as that code can. -/
structure Executed (client : Client W) (log : List (Beat W)) (s : State W) (f : FutureId)
    (task : Task W) (code : Strand → Code W) (result : Except Panic Outcome) : Prop where
  begins : ∃ beat ∈ log, beat.deed client = .started ⟨task, f⟩ (code (s.shared.futures.strandOf f)) ∧
    beat.GoesOn client [.running (.task ⟨task, f⟩) (code (s.shared.futures.strandOf f))]
  starts : startsOf client log f = [(task, code (s.shared.futures.strandOf f))]
  ends : endsOf client log f = [result]
  canEnd : (code (s.shared.futures.strandOf f)).CanEnd result

/-- The unit of a future was placed, bound and executed, and came to an outcome. -/
def RunsTo (client : Client W) (log : List (Beat W)) (s : State W) (f : FutureId)
    (outcome : Outcome) : Prop :=
  ∃ p code result, .bound p ∈ deeds client log ∧ p.future = f ∧ p.Vouched (deeds client log) ∧
    p.task.HasCode client code ∧ Executed client log s f p.task code result ∧
    outcome = p.task.conclude (Outcome.ofEnd result)

/-! ## Making futures -/

def Deed.makes : Deed W → Option (FutureId × FutureSpec × Callback W)
  | opened f call metadata _ => some (f, call.invocation.spec metadata, .client call.callback)
  | argument f omitted r => some (f, r.spec omitted.param, .argument r)
  | _ => none

section Naming

variable {client : Client W} {s : Shared W}

theorem Frame.step_makes {sight : Sight} {choice : Choice} {frame : Frame W} {p : Progress W}
    (taken : frame.step client sight choice s = some p) {f : FutureId} {spec : FutureSpec}
    {callback : Callback W} (makes : (frame.deed client s).makes = some (f, spec, callback)) :
    f = s.futures.nextId ∧ p.shared.futures = s.futures ++ [.make f spec callback] := by
  have does := frame.does client s
  generalize frame.deed client s = δ at does makes
  cases does with
  | opened =>
    cases makes
    cases taken
    exact ⟨rfl, rfl⟩
  | argument pending =>
    cases makes
    cases taken
    refine ⟨rfl, ?_⟩
    simp only [evaluateStep, pending]
    rfl
  | managed managed _ =>
    cases δ with
    | opened | argument => cases managed
    | _ => cases makes
  | _ => cases makes

/-- The thread that starts a unit goes on with the unit's code. -/
theorem Frame.step_starts {sight : Sight} {choice : Choice} {frame : Frame W} {p : Progress W}
    (taken : frame.step client sight choice s = some p) {job : Job W} {code : Code W}
    (started : frame.deed client s = .started job code) :
    code = job.task.start client (s.futures.strandOf job.future) ∧
      [.running (.task job) code] <+: p.frames := by
  have does := frame.does client s
  rw [started] at does
  generalize eq : Deed.started job code = δ at does
  cases does with
  | started items =>
    cases eq
    cases taken
    refine ⟨rfl, ?_⟩
    simp only [pollStep, RunQueue.pop, items]
    exact List.prefix_append _ _
  | turned found jobs =>
    cases eq
    cases taken
    refine ⟨rfl, ?_⟩
    simp only [turnStep, Group.next, found, jobs]
    exact List.prefix_append _ _
  | managed managed _ => subst eq; cases managed
  | _ => cases eq

end Naming

namespace State

variable {client : Client W} {start : State W}

namespace Log

variable {s : State W} {log : List (Beat W)}

/-! ## Deeds and events of a run -/

theorem tells (run : Log client start log s) {beat : Beat W} (mem : beat ∈ log) :
    (beat.deed client).Tells (beat.event client) := by
  obtain ⟨_, _, _, taken, _⟩ := run.step_of_mem mem
  obtain ⟨acted⟩ := step_cases taken
  exact tells_of_acted acted

theorem event_of_deed (run : Log client start log s) {δ : Deed W} (mem : δ ∈ deeds client log) :
    ∃ e ∈ events client log, δ.Tells e := by
  obtain ⟨beat, inLog, rfl⟩ := List.mem_map.1 mem
  exact ⟨_, List.mem_map.2 ⟨beat, inLog, rfl⟩, run.tells inLog⟩

theorem deed_of_event (run : Log client start log s) {e : Event} (mem : e ∈ events client log) :
    ∃ δ ∈ deeds client log, δ.Tells e := by
  obtain ⟨beat, inLog, rfl⟩ := List.mem_map.1 mem
  exact ⟨_, List.mem_map.2 ⟨beat, inLog, rfl⟩, run.tells inLog⟩

theorem begins_of_started (run : Log client start log s) {job : Job W} {code : Code W}
    (started : .started job code ∈ deeds client log) :
    ∃ beat ∈ log, beat.deed client = .started job code ∧
      beat.GoesOn client [.running (.task job) code] := by
  obtain ⟨beat, mem, deed⟩ := List.mem_map.1 started
  obtain ⟨frame, sight, choice, p, moved, own, goesOn⟩ :=
    run.frame_of_deed mem (by rw [deed]; rintro ⟨⟩)
  exact ⟨beat, mem, deed, goesOn _ (Frame.step_starts moved (own.trans deed)).2⟩

/-- What happens once is one deed. -/
theorem deed_unique (run : Log client start log s) {n : Event → Nat}
    (once : tally n (events client log) ≤ 1) {δ δ' : Deed W} (mem : δ ∈ deeds client log)
    (mem' : δ' ∈ deeds client log) (counts : ∀ e, δ.Tells e → 0 < n e)
    (counts' : ∀ e, δ'.Tells e → 0 < n e) : δ = δ' := by
  obtain ⟨beat, inLog, rfl⟩ := List.mem_map.1 mem
  obtain ⟨beat', inLog', rfl⟩ := List.mem_map.1 mem'
  by_contra ne
  have different : beat ≠ beat' := fun same => ne (by rw [same])
  have both := add_le_sum_map (n := fun beat => n (beat.event client)) inLog inLog' different
  have pos := counts _ (run.tells inLog)
  have pos' := counts' _ (run.tells inLog')
  rw [tally, events, List.map_map] at once
  change (log.map fun beat => n (beat.event client)).sum ≤ 1 at once
  omega

theorem length_filterMap (run : Log client start log s) {α : Type} {g : Deed W → Option α}
    {n : Event → Nat} (agree : ∀ δ e, Deed.Tells δ e → (g δ).toList.length = n e) :
    ((deeds client log).filterMap g).length = tally n (events client log) := by
  have all : ∀ beats : List (Beat W), beats ⊆ log →
      ((deeds client beats).filterMap g).length = tally n (events client beats) := by
    intro beats
    induction beats with
    | nil => exact fun _ => rfl
    | cons beat rest ih =>
      intro sub
      have here := agree _ _ (run.tells (sub List.mem_cons_self))
      have there := ih fun _ mem => sub (List.mem_cons_of_mem _ mem)
      rw [deeds_cons, events_cons, List.filterMap_cons, tally_cons]
      cases tells : g (beat.deed client) with
      | none =>
        rw [tells, Option.toList_none, List.length_nil] at here
        simpa [← here] using there
      | some a =>
        rw [tells, Option.toList_some, List.length_singleton] at here
        simp only [List.length_cons]
        omega
  exact all log (List.Subset.refl log)

theorem length_startsOf (run : Log client start log s) (f : FutureId) :
    (startsOf client log f).length = tally (Event.runs f) (events client log) := by
  refine run.length_filterMap fun δ e tells => ?_
  cases tells with
  | @started job code | @turned job code receiver group =>
    by_cases same : job.future = f <;> simp [Deed.startOf, Event.runs, Strands.one, same]
  | bare bare =>
    cases e <;> first | rfl | cases bare
  | _ => rfl

theorem length_endsOf (run : Log client start log s) (f : FutureId) :
    (endsOf client log f).length = tally (Event.ends f) (events client log) := by
  refine run.length_filterMap fun δ e tells => ?_
  cases tells with
  | @ended job result =>
    by_cases same : job.future = f <;> simp [Deed.endOf, Event.ends, Strands.one, same]
  | bare bare =>
    cases e <;> first | rfl | cases bare
  | _ => rfl

end Log

/-! ## Strands -/

section Strands

variable {workers : Nat} {world : W} {kept : List ObjectId} {threads : List (Code W)}
  {s : State W} {log : List (Beat W)}

theorem strandOf_step {s s' : State W} {thread : ThreadId} {choice : Choice} {f : FutureId}
    (taken : s.step client thread choice = some s') (made : (s.shared.futures.get? f).isSome) :
    s'.shared.futures.strandOf f = s.shared.futures.strandOf f := by
  rcases (step_accounts taken).futures.get? f with ⟨_, none, _⟩ | ⟨_, same⟩
  · rw [none] at made
    cases made
  · unfold Futures.strandOf
    rw [same]
    cases s.shared.futures.get? f with
    | none => rfl
    | some u => exact congrArg (fun strand => (some strand).getD default) (Event.update_strand f _ u)

theorem makes_of_deed {s s' : State W} {thread : ThreadId} {choice : Choice}
    (taken : s.step client thread choice = some s') {f : FutureId} {spec : FutureSpec}
    {callback : Callback W}
    (makes : ((⟨s, thread⟩ : Beat W).deed client).makes = some (f, spec, callback)) :
    f = s.shared.futures.nextId ∧
      s'.shared.futures = s.shared.futures ++ [.make f spec callback] := by
  obtain ⟨acted⟩ := step_cases taken
  rw [deed_of_acted acted] at makes
  have move := acted.move
  rw [acted.shared']
  generalize acted.progress = p at move
  generalize acted.top = top at move makes
  cases move with
  | act moved => exact Frame.step_makes moved makes
  | _ => cases makes

/-- Futures have the strands that the deeds which made them name, and units run on the
strands of their futures. -/
structure Named (client : Client W) (ds : List (Deed W)) (s : State W) : Prop where
  made : ∀ δ ∈ ds, ∀ f spec callback, δ.makes = some (f, spec, callback) →
    (s.shared.futures.get? f).isSome ∧ s.shared.futures.strandOf f = spec.strand f
  started : ∀ job code, .started job code ∈ ds →
    (s.shared.futures.get? job.future).isSome ∧
      code = job.task.start client (s.shared.futures.strandOf job.future)

theorem isSome_of_step {s s' : State W} {thread : ThreadId} {choice : Choice} {f : FutureId}
    (taken : s.step client thread choice = some s') (made : (s.shared.futures.get? f).isSome) :
    (s'.shared.futures.get? f).isSome := by
  rcases (step_accounts taken).futures.get? f with ⟨_, none, _⟩ | ⟨_, same⟩
  · rw [none] at made
    cases made
  · rw [same]
    simpa using made

/-- A future is bound to one unit. -/
theorem Log.bound_unique (run : Log client (State.start workers world kept threads) log s)
    {p q : Placing W} (bound : .bound p ∈ deeds client log) (bound' : .bound q ∈ deeds client log)
    (same : p.future = q.future) : p = q := by
  have claims {p : Placing W} {e : Event} (tells : (Deed.bound p).Tells e) :
      0 < e.claims p.future := by
    cases tells
    exact Nat.lt_of_lt_of_eq Nat.one_pos (one_self _).symm
  have eq := run.deed_unique (run.trace.claims_le p.future) bound bound' (fun e => claims)
    fun e tells => same ▸ claims tells
  cases eq
  rfl

theorem Log.isSome_of_started (run : Log client (State.start workers world kept threads) log s)
    {s' : State W} {thread : ThreadId} {choice : Choice}
    (taken : s.step client thread choice = some s') {job : Job W} {code : Code W}
    (started : (⟨s, thread⟩ : Beat W).deed client = .started job code) :
    (s.shared.futures.get? job.future).isSome := by
  obtain ⟨acted⟩ := step_cases taken
  have tells := tells_of_acted acted
  rw [started] at tells
  have trace := run.trace.step taken
  have runs : 0 < (s.event client thread).runs job.future := by
    generalize s.event client thread = e at tells
    cases tells <;> simp [Event.runs]
  have ran : 0 < tally (Event.runs job.future) (events client log ++ [s.event client thread]) := by
    rw [tally_append, tally_cons]
    omega
  obtain ⟨u, found, _⟩ := trace.exists_record_of_claims job.future (trace.claims_of_runs ran)
  rcases (step_accounts taken).futures.get? job.future with ⟨births, _⟩ | ⟨_, same⟩
  · generalize s.event client thread = e at births runs
    cases e <;> first | cases births | cases runs
  · rw [same] at found
    obtain ⟨v, before, _⟩ := Option.map_eq_some_iff.1 found
    rw [before]
    rfl

theorem Log.named (run : Log client (State.start workers world kept threads) log s) :
    s.Named client (deeds client log) := by
  induction run with
  | start =>
    refine ⟨fun δ mem => ?_, fun job code mem => ?_⟩
    · cases mem
    · cases mem
  | @step log s s' thread choice run taken ih =>
    have lasts {f : FutureId} (made : (s.shared.futures.get? f).isSome) :
        (s'.shared.futures.get? f).isSome ∧
          s'.shared.futures.strandOf f = s.shared.futures.strandOf f :=
      ⟨isSome_of_step taken made, strandOf_step taken made⟩
    obtain ⟨acted⟩ := step_cases taken
    rw [deeds_append]
    refine ⟨fun δ mem f spec callback makes => ?_, fun job code mem => ?_⟩
    · rcases List.mem_append.1 mem with earlier | new
      · obtain ⟨made, strandOf⟩ := ih.made δ earlier f spec callback makes
        exact ⟨(lasts made).1, (lasts made).2.trans strandOf⟩
      · rw [List.mem_singleton.1 new] at makes
        obtain ⟨rfl, futures⟩ := makes_of_deed taken makes
        rw [futures, Futures.strandOf, Futures.get?_append_nextId]
        exact ⟨rfl, rfl⟩
    · rcases List.mem_append.1 mem with earlier | new
      · obtain ⟨made, eq⟩ := ih.started job code earlier
        rw [(lasts made).2]
        exact ⟨(lasts made).1, eq⟩
      · have made := run.isSome_of_started taken (List.mem_singleton.1 new).symm
        rw [(lasts made).2]
        refine ⟨(lasts made).1, ?_⟩
        have started := List.mem_singleton.1 new
        rw [deed_of_acted acted] at started
        have move := acted.move
        generalize acted.progress = p at move
        generalize acted.top = top at move started
        cases move with
        | act moved => exact (Frame.step_starts moved started.symm).1
        | _ => cases started

/-! ## Units that have ended -/

theorem eq_singleton {α : Type} {l : List α} {a : α} (mem : a ∈ l) (most : l.length ≤ 1) :
    l = [a] := by
  cases l with
  | nil => cases mem
  | cons b rest =>
    cases rest with
    | nil => rw [List.mem_singleton.1 mem]
    | cons c others => simp at most

/-- A unit that has ended was executed once, as it was bound. -/
theorem Log.unit_of_ended (run : Log client (State.start workers world kept threads) log s)
    {f : FutureId} {outcome : Outcome} (ended : .ended f outcome ∈ events client log) :
    RunsTo client log s f outcome := by
  have vouched := run.vouched
  obtain ⟨δ, mem, tells⟩ := run.deed_of_event ended
  cases tells with
  | @ended job result =>
    obtain ⟨first, started, canEnd⟩ := vouched.deeds _ mem
    obtain ⟨p, bound, rfl⟩ := vouched.deeds _ started
    obtain ⟨_, rfl⟩ := run.named.started _ _ started
    have law := run.trace.unit_law p.job.future
    have once := run.trace.runs_le p.job.future
    refine ⟨p, _, result, bound, rfl, vouched.deeds _ bound, p.task.hasCode_start client,
      ⟨run.begins_of_started started, ?_, ?_, canEnd⟩, rfl⟩
    · refine eq_singleton (List.mem_filterMap.2 ⟨_, started, if_pos rfl⟩) ?_
      rw [show _ = (startsOf client log p.job.future).length from rfl, run.length_startsOf]
      omega
    · refine eq_singleton (List.mem_filterMap.2 ⟨_, mem, if_pos rfl⟩) ?_
      rw [show _ = (endsOf client log p.job.future).length from rfl, run.length_endsOf]
      omega
  | bare bare => cases bare

end Strands
end State
end Strands
