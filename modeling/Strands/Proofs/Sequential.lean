/-
Units of one receiver as if there were nothing else.

`Log.sequential` says what a lane is worth to those who use it.  The client is tame: its
units read and write the cells of their receivers, one access after another, and nothing
else writes to cells.  Then at any time at which no work is in flight, each cell is as the
units of its receiver leave it that run in the order of the lane with nobody in between,
and each unit's future has the outcome that the unit has then.  Neither says anything of
workers, nor of who acted when.

`Log.tidy` is the induction over the steps of a run.  A turn finds all earlier units of its
receiver ended, so that the cell is as they left it, and no two units of a receiver run at
one time, so that nobody else writes to the cell of a unit that runs.
-/
import Mathlib.Data.List.Perm.Subperm
import Strands.Proofs.Closing
import Strands.Proofs.LaneUnits
import Strands.Proofs.Units

namespace Strands

open Routine (runAll results)

/-! ## Where units were put -/

namespace State

section Lanes

variable {W : Type} {client : Client W} {workers : Nat} {world : W} {kept : List ObjectId}
  {threads : List (Code W)} {s : State W} {log : List (Beat W)}

/-- What was put on a receiver's lane was bound to be put there. -/
theorem Log.bound_of_appends (run : Log client (State.start workers world kept threads) log s)
    {r : ObjectId} {f : FutureId} (mem : f ∈ appends r (events client log)) :
    ∃ p, .bound p ∈ deeds client log ∧ p.future = f ∧ p.place = .group r := by
  obtain ⟨group, took, appended⟩ := Trace.of_mem_appends mem
  obtain ⟨beat, inLog, event⟩ := List.mem_map.1 appended
  obtain ⟨before, after, rfl⟩ := List.append_of_mem inLog
  obtain ⟨earlier, choice, s', taken, _⟩ := run.split
  obtain ⟨frame, place, job, asker, rfl, rfl⟩ :=
    Moment.sound ⟨beat.s, s', beat.thread, choice, earlier.trace, taken, event⟩
  have sent := earlier.vouched.frames place.thread place.mem (.append r group job asker)
    (by rw [place.stack]; simp)
  exact ⟨_, mem_deeds_left sent _, rfl, rfl⟩

end Lanes

/-! ## One step -/

section Step

variable {W : Type} {client : Client W} {workers : Nat} {world : W} {kept : List ObjectId}
  {threads : List (Code W)} {s s' : State W} {history : List Event} {thread : ThreadId}
  {choice : Choice}

theorem Trace.not_ended_of_unit
    (trace : Trace client (State.start workers world kept threads) history s) {f : FutureId}
    (unit : .unit f ∈ s.stakes) (outcome : Outcome) : .ended f outcome ∉ history := fun ended => by
  have held := weigh_pos_of_mem (w := Stake.runs f) unit (one_self f)
  have ends := tally_pos_of_mem (n := Event.ends f) ended (one_self f)
  have law := trace.unit_law f
  have once := trace.runs_le f
  omega

/-- The unit that acts is the only one of its future. -/
theorem Trace.future_ne_of_others
    (trace : Trace client (State.start workers world kept threads) history s)
    (acted : Acted client s s' thread choice) {job job' : Job W} {code code' : Code W}
    (top : acted.top = [.running (.task job) code])
    (mem : .running (.task job') code' ∈ acted.others) : job'.future ≠ job.future := fun same => by
  have le := acted.weigh_top_add_le mem (Stake.runs job.future)
  have law := trace.unit_law job.future
  have once := trace.runs_le job.future
  simp [top, Stake.runs, same] at le
  omega

end Step

end State

variable {σ : Type}

theorem Shared.Tame.line_eq_nil {s : Shared (Cells σ)} (tame : s.Tame) : s.line = [] :=
  List.filterMap_eq_nil_iff.2 fun item mem => by
    obtain ⟨group, rfl⟩ := tame.items item mem
    rfl

namespace State

variable {client : Client (Cells σ)} {workers : Nat} {cells : Cells σ} {kept : List ObjectId}
  {threads : List (Code (Cells σ))} {s : State (Cells σ)} {log : List (Beat (Cells σ))}

theorem Log.tame_of_bound (run : Log client (State.start workers cells kept threads) log s)
    (usual : ∀ δ ∈ deeds client log, δ.Usual) {p : Placing (Cells σ)}
    (bound : .bound p ∈ deeds client log) : p.Tame := by
  obtain ⟨δ, mem, placing⟩ := run.vouched.deeds _ bound
  have own := usual δ mem
  cases δ with
  | placed q =>
    cases placing
    exact own.resolve_left (by rintro ⟨_, _, ⟨⟩⟩)
  | argument d omitted resolution | handed quest result | asked q =>
    exact absurd (own.resolve_left (by rintro ⟨_, _, ⟨⟩⟩)) id
  | _ => cases placing

/-- A unit that begins in a turn of a receiver's group runs the routine that was placed
there, on the receiver's cell. -/
theorem Log.routine_of_turned (run : Log client (State.start workers cells kept threads) log s)
    (usual : ∀ δ ∈ deeds client log, δ.Usual) {r : ObjectId} {g : GroupId}
    {job : Job (Cells σ)} {code : Code (Cells σ)}
    (turned : .turned r g job.future ∈ events client log)
    (started : .started job code ∈ deeds client log) :
    ∃ p work, .bound p ∈ deeds client log ∧ p.job = job ∧ p.place = .group r ∧
      p.task = Routine.task r work ∧
      code = (work (s.shared.futures.strandOf job.future)).code r := by
  obtain ⟨p, bound, rfl⟩ := run.vouched.deeds _ started
  obtain ⟨r', work, onLane, runs⟩ := run.tame_of_bound usual bound
  have appended := (run.trace.starts_sublist r).subset (mem_starts turned)
  obtain ⟨q, bound', same, onLane'⟩ := run.bound_of_appends appended
  obtain rfl := run.bound_unique bound bound' same.symm
  obtain rfl : r = r' := by
    rw [onLane] at onLane'
    cases onLane'
    rfl
  refine ⟨p, work, bound, rfl, onLane, runs, ?_⟩
  rw [(run.named.started _ _ started).2, show p.job.task = _ from runs]
  rfl

section Step

variable {s' : State (Cells σ)} {thread : ThreadId} {choice : Choice}
  {units : ObjectId → List (FutureId × Routine σ)}
  (run : Log client (State.start workers cells kept threads) log s)
  (tidy : Tidy cells (deeds client log) (events client log) s units)

include run tidy

/-- A unit goes on with its routine.  No other unit of its receiver is under way. -/
theorem Log.tidy_of_access (acted : Acted client s s' thread choice) {job : Job (Cells σ)}
    {r : ObjectId} {earlier : List (FutureId × Routine σ)} {routine rest rest' : Routine σ}
    {value : σ} (top : acted.top = [.running (.task job) (rest.code r)])
    (last : units r = earlier ++ [(job.future, routine)])
    (runs : rest.run (s.shared.world r) = routine.run (runAll earlier (cells r)))
    (goes : rest'.run value = rest.run (s.shared.world r))
    (progress : acted.progress =
      { shared := { s.shared with world := Function.update s.shared.world r value }
        frames := [.running (.task job) (rest'.code r)] }) :
    Tidy cells (deeds client log ++ [.other]) (events client log ++ [.other]) s' units := by
  have world : s'.shared.world = Function.update s.shared.world r value := by
    rw [acted.shared', progress]
  have inStack : .running (.task job) (rest.code r) ∈ acted.actor.stack := by
    rw [acted.stack, top]
    exact List.mem_cons_self
  have unit := stakes_of_mem acted.actor_mem inStack (List.mem_singleton.2 rfl)
  refine tidy.step acted ?_ (.inr trivial) (by simp) ?_ ?_ ?_ fun job' code' stays => ?_
  · refine tidy.serial.keep (by simp) (by simp) fun r' ends => ?_
    rw [world]
    refine Function.update_of_ne ?_ _ _
    rintro rfl
    obtain ⟨outcome, ended⟩ := ends (job.future, routine) (by simp [last])
    exact run.trace.not_ended_of_unit unit outcome ended
  · rw [progress, world]
    exact tame_cons.2 ⟨⟨r, earlier, routine, rest', last, rfl, by simp [goes, runs]⟩,
      List.forall_mem_nil _⟩
  · rw [progress]
    exact List.forall_mem_nil _
  · rw [progress]
    exact tidy.shared.of_same rfl rfl
  · rintro ⟨r', earlier', routine', rest'', last', eq, runs'⟩
    have other : r' ≠ r := by
      rintro rfl
      obtain ⟨_, same⟩ := List.append_inj' (last'.symm.trans last) rfl
      exact run.trace.future_ne_of_others acted top stays
        (congrArg Prod.fst (List.cons.inj same).1)
    refine ⟨r', earlier', routine', rest'', last', eq, ?_⟩
    rw [world, Function.update_of_ne other, runs']

/-- A unit ends. -/
theorem Log.tidy_of_end (acted : Acted client s s' thread choice) {job : Job (Cells σ)}
    {r : ObjectId} {earlier : List (FutureId × Routine σ)} {routine rest : Routine σ}
    {result : Except Panic Outcome}
    (last : units r = earlier ++ [(job.future, routine)])
    (runs : rest.run (s.shared.world r) = routine.run (runAll earlier (cells r)))
    (ends : rest.run (s.shared.world r) = (s.shared.world r, result))
    (progress : acted.progress =
      { shared := s.shared, frames := [.settle job.future (.ofEnd result), .leave] }) :
    Tidy cells (deeds client log ++ [.ended job result])
      (events client log ++ [.ended job.future (.ofEnd result)]) s' units := by
  have shared : s'.shared = s.shared := by rw [acted.shared', progress]
  have own : (job.future, routine) ∈ units r := by simp [last]
  have distinct : job.future ∉ earlier.map Prod.fst := by
    have nodup : (starts r (events client log)).Nodup :=
      (run.trace.starts_sublist r).nodup (run.trace.serializes r).1
    rw [← tidy.serial.order r, last, List.map_append] at nodup
    exact fun mem => (List.nodup_append.1 nodup).2.2 _ mem _ (by simp) rfl
  have alone (r' : ObjectId) (u : FutureId × Routine σ) (mem : u ∈ units r')
      (same : u.1 = job.future) : r' = r := by
    obtain ⟨g, turned⟩ := tidy.serial.turned own
    obtain ⟨g', turned'⟩ := tidy.serial.turned mem
    rw [same] at turned'
    cases run.trace.turned_unique turned turned' (by simp [Event.runs])
    rfl
  refine tidy.step acted ?_ (.inl ⟨job, result, rfl⟩) (by simp) ?_ ?_ ?_ fun _ _ _ => ?_
  · rw [shared]
    exact tidy.serial.finish last (runs.symm.trans ends) distinct alone
  · rw [progress]
    exact Bare.tame (by simp [Frame.isBare])
  · rw [progress]
    exact List.forall_mem_nil _
  · rw [progress]
    exact tidy.shared
  · rw [shared]
    exact id

theorem Log.exists_routine (taken : s.step client thread choice = some s') {r : ObjectId}
    {g : GroupId} {job : Job (Cells σ)} {code : Code (Cells σ)}
    (event : s.event client thread = .turned r g job.future)
    (deed : (⟨s, thread⟩ : Beat (Cells σ)).deed client = .started job code) :
    ∃ routine : Routine σ, code = routine.code r := by
  have deeds' : deeds client (log ++ [⟨s, thread⟩]) =
      deeds client log ++ [.started job code] := by
    simp [deed]
  have events' : events client (log ++ [⟨s, thread⟩]) =
      events client log ++ [.turned r g job.future] := by
    simp [Beat.event, event]
  have usual : ∀ δ ∈ deeds client log ++ [.started job code], δ.Usual :=
    List.forall_mem_append.2 ⟨tidy.deeds, List.forall_mem_singleton.2 (.inr trivial)⟩
  obtain ⟨p, work, _, _, _, _, eq⟩ := (run.step taken).routine_of_turned (deeds' ▸ usual)
    (events' ▸ List.mem_append_right _ (List.mem_singleton.2 rfl))
    (deeds' ▸ List.mem_append_right _ (List.mem_singleton.2 rfl))
  exact ⟨_, eq⟩

/-- A turn begins.  All earlier units of the receiver have ended. -/
theorem Log.tidy_of_turn (taken : s.step client thread choice = some s')
    (acted : Acted client s s' thread choice) {r : ObjectId} {g : GroupId} {job : Job (Cells σ)}
    {code : Code (Cells σ)} (orderly : Orderly s.shared (.started job code) acted.progress)
    (event : s.event client thread = .turned r g job.future)
    (deed : (⟨s, thread⟩ : Beat (Cells σ)).deed client = .started job code) :
    ∃ units', Tidy cells (deeds client log ++ [.started job code])
      (events client log ++ [.turned r g job.future]) s' units' := by
  obtain ⟨moment, at_⟩ : ∃ moment : Moment client (State.start workers cells kept threads)
      (events client log) (.turned r g job.future), moment.s = s :=
    ⟨⟨s, s', thread, choice, run.trace, taken, event⟩, rfl⟩
  obtain ⟨routine, rfl⟩ := run.exists_routine tidy taken event deed
  have world : s'.shared.world = s.shared.world := by rw [acted.shared', orderly.world]
  have unended (outcome : Outcome) : .ended job.future outcome ∉ events client log := fun mem => by
    have none := moment.ends_zero
    have ends := tally_pos_of_mem (n := Event.ends job.future) mem (one_self job.future)
    omega
  have left : s.shared.world r = runAll (units r) (cells r) := by
    refine tidy.serial.between r fun u mem => ?_
    obtain ⟨g', turned⟩ := tidy.serial.turned mem
    exact moment.ended_before turned
  refine ⟨_, tidy.step acted (by rw [world]; exact tidy.serial.turn unended) (.inr trivial)
    (by simp) (fun frame new => (orderly.frames frame new).imp ?_)
    orderly.spawned orderly.shared fun job' code' stays => ?_⟩
  · rintro job' code' rfl same
    cases same
    exact ⟨r, units r, routine, routine, Function.update_self .., rfl, by rw [world, left]⟩
  · rintro ⟨r', earlier', routine', rest, last, eq, runs⟩
    have other : r' ≠ r := by
      rintro rfl
      obtain ⟨g', turned⟩ :=
        tidy.serial.turned (r := r') (u := (job'.future, routine')) (by simp [last])
      obtain ⟨t, mem, inStack⟩ := acted.of_mem_others stays
      have unit := stakes_of_mem mem inStack (List.mem_singleton.2 rfl)
      exact moment.not_unit turned (at_ ▸ unit)
    exact ⟨r', earlier', routine', rest, (Function.update_of_ne other ..).trans last, eq,
      by rw [world, runs]⟩

/-- A step that runs no unit, except that one may begin. -/
theorem Log.tidy_of_orderly (taken : s.step client thread choice = some s')
    (acted : Acted client s s' thread choice)
    (others : ∀ frame ∈ acted.top, frame.Tame fun _ _ => False) :
    ∃ units', Tidy cells (deeds client log ++ [(⟨s, thread⟩ : Beat (Cells σ)).deed client])
      (events client log ++ [s.event client thread]) s' units' := by
  have orderly := Move.orderly tidy.shared others acted.move
  have tells := tells_of_acted acted
  rw [← deed_of_acted acted] at orderly
  generalize deed : (⟨s, thread⟩ : Beat (Cells σ)).deed client = δ at orderly tells
  generalize event : s.event client thread = e at tells
  have world : s'.shared.world = s.shared.world := by rw [acted.shared', orderly.world]
  have unstarted : ∀ f, e ≠ .started f := by
    rintro f rfl
    have none := tidy.shared.line_eq_nil
    have lines := step_lines taken
    rw [event] at lines
    rw [show s.shared.line = _ from lines] at none
    cases none
  by_cases begins : ∃ job code, δ = .started job code
  · obtain ⟨job, code, rfl⟩ := begins
    cases tells with
    | started => exact absurd rfl (unstarted _)
    | turned => exact run.tidy_of_turn tidy taken acted orderly event deed
  · refine ⟨units, tidy.step acted ?_ (.inr orderly.deed) unstarted
      (fun frame new => (orderly.frames frame new).imp ?_) orderly.spawned orderly.shared
      fun _ _ _ => ?_⟩
    · refine tidy.serial.keep ?_ ?_ fun r _ => by rw [world]
      · rintro r g f rfl
        cases tells with
        | turned => exact begins ⟨_, _, rfl⟩
        | bare bare => cases bare
      · rintro f outcome rfl
        cases tells with
        | ended => exact orderly.deed
        | bare bare => cases bare
    · rintro job code rfl same
      exact absurd ⟨job, code, same⟩ begins
    · rw [world]
      exact id

theorem Log.conclude_of_unit (acted : Acted client s s' thread choice) {job : Job (Cells σ)}
    {code : Code (Cells σ)} (top : .running (.task job) code ∈ acted.top) (outcome : Outcome) :
    job.task.conclude outcome = outcome := by
  have own := run.vouched.frames acted.actor acted.actor_mem (.running (.task job) code)
    (by rw [acted.stack]; exact List.mem_append_left _ top)
  obtain ⟨first, started, _⟩ := own
  obtain ⟨p, bound, rfl⟩ := run.vouched.deeds _ started
  obtain ⟨r, work, _, runs⟩ := run.tame_of_bound tidy.deeds bound
  rw [show p.job.task = _ from runs]
  rfl

theorem Log.tidy_step (taken : s.step client thread choice = some s') :
    ∃ units', Tidy cells (deeds client (log ++ [⟨s, thread⟩]))
      (events client (log ++ [⟨s, thread⟩])) s' units' := by
  obtain ⟨acted⟩ := step_cases taken
  have tame := tidy.frames acted.actor acted.actor_mem
  rw [acted.stack] at tame
  have tame := (tame_append.1 tame).1
  rw [deeds_append, events_append]
  by_cases unit : ∃ job code, .running (.task job) code ∈ acted.top
  · obtain ⟨job, code, mem⟩ := unit
    obtain ⟨top, step⟩ := acted.move.act_of_running mem
    obtain ⟨r, earlier, routine, rest, last, rfl, runs⟩ := tame _ mem
    have concludes := run.conclude_of_unit tidy acted mem
    have event := acted.event
    have deed := deed_of_acted acted
    rw [top] at event deed
    have event : events client [⟨s, thread⟩] = [(rest.code r).event client s.shared (.task job)] :=
      congrArg ([·]) event
    have deed : deeds client [⟨s, thread⟩] = [(rest.code r).deed client s.shared (.task job)] :=
      congrArg ([·]) deed
    rw [event, deed]
    refine ⟨units, ?_⟩
    rcases Routine.step_cases step with ⟨value, rest', goes, progress, same, same'⟩ |
      ⟨result, ends, progress, same, same'⟩
    · rw [same, same']
      exact run.tidy_of_access tidy acted top last runs goes progress
    · rw [concludes] at progress same
      rw [same, same']
      exact run.tidy_of_end tidy acted last runs ends progress
  · refine run.tidy_of_orderly tidy taken acted fun frame mem => ?_
    refine (tame frame mem).cases.resolve_left ?_
    rintro ⟨job, code, rfl, _⟩
    exact unit ⟨job, code, mem⟩

end Step

/-! ## Runs -/

theorem Log.tidy (run : Log client (State.start workers cells kept threads) log s)
    (tame : ∀ code ∈ threads, code.Tame) :
    ∃ units, Tidy cells (deeds client log) (events client log) s units := by
  induction run with
  | start =>
    refine ⟨fun _ => [], ?_, fun t mem frame inStack => ?_, ?_, ?_, ?_⟩
    · exact ⟨fun _ => rfl, fun _ => List.forall_mem_nil _,
        fun _ _ _ mem => absurd mem List.not_mem_nil, fun _ _ => rfl⟩
    · rcases List.mem_append.1 mem with worker | ofClient
      · rw [(List.mem_replicate.1 worker).2] at inStack
        cases List.mem_singleton.1 inStack
        exact Frame.tame_of_isBare rfl
      · obtain ⟨code, own, rfl⟩ := List.mem_map.1 ofClient
        cases List.mem_singleton.1 inStack
        exact Frame.tame_of_isOwn rfl (tame code own)
    · exact ⟨List.forall_mem_nil _, List.forall_mem_nil _⟩
    · exact List.forall_mem_nil _
    · exact fun f => List.not_mem_nil
  | step run taken ih =>
    obtain ⟨units, tidy⟩ := ih
    exact run.tidy_step tidy taken

/-! ## Nothing in flight -/

section Idle

variable {W : Type} {client : Client W} {workers : Nat} {world : W} {kept : List ObjectId}
  {threads : List (Code W)} {s : State W} {history : List Event}
  (trace : Trace client (State.start workers world kept threads) history s)
  (isOpen : ∀ futures, .closed futures ∉ history) (idle : s.shared.inFlight = 0)

include trace isOpen idle

theorem Trace.ended_of_appends {r : ObjectId} {f : FutureId} (mem : f ∈ appends r history) :
    (∃ byClient, .counted f byClient ∈ history) ∧ Ran history f ∧
      ∃ outcome, .ended f outcome ∈ history := by
  obtain ⟨group, took, appended⟩ := of_mem_appends mem
  have queues := tally_pos_of_mem (n := Event.queues f) appended (one_self f)
  have law := trace.hand_law f
  rw [tally_add] at law
  obtain ⟨e, counted, pos⟩ := tally_pos (show 0 < tally (Event.counts f) history by omega)
  obtain ⟨byClient, rfl⟩ : ∃ byClient, e = .counted f byClient := by
    cases e with
    | counted g byClient => exact ⟨byClient, by rw [one_pos pos]⟩
    | _ => cases pos
  exact ⟨⟨byClient, counted⟩,
    trace.ended_of_counted idle counted (trace.not_refused_of_open isOpen f)⟩

theorem Trace.starts_eq_appends (r : ObjectId) : starts r history = appends r history := by
  refine (trace.starts_sublist r).eq_of_length_le ?_
  refine ((trace.serializes r).1.subperm fun f mem => ?_).length_le
  obtain ⟨_, ran, _⟩ := trace.ended_of_appends isOpen idle mem
  obtain ⟨e, inHistory, runs⟩ := tally_pos (ran_iff.1 ran)
  obtain ⟨g, rfl⟩ := trace.turned_of_appends mem inHistory runs
  exact mem_starts inHistory

end Idle

/-- The units that were put on a receiver's lane, in the order of the lane. -/
structure Lined (client : Client (Cells σ)) (log : List (Beat (Cells σ))) (s : State (Cells σ))
    (r : ObjectId) (units : List (FutureId × Routine σ)) : Prop where
  order : units.map Prod.fst = appends r (events client log)
  /-- Each is bound to its future by a client's placing, and runs on the future's strand. -/
  bound : ∀ u ∈ units, ∃ p work, .bound p ∈ deeds client log ∧ p.future = u.1 ∧
    p.place = .group r ∧ p.task = Routine.task r work ∧
    u.2 = work (s.shared.futures.strandOf u.1)

theorem eq_of_map_fst {α β : Type} {l l' : List (α × β)} (first : l.map Prod.fst = l'.map Prod.fst)
    (tells : ∀ u ∈ l, ∀ u' ∈ l', u.1 = u'.1 → u.2 = u'.2) : l = l' := by
  induction l generalizing l' with
  | nil => exact (List.map_eq_nil_iff.1 first.symm).symm
  | cons u rest ih =>
    cases l' with
    | nil => cases first
    | cons u' rest' =>
      obtain ⟨here, there⟩ := List.cons.inj first
      have same : u = u' := Prod.ext here (tells u (by simp) u' (by simp) here)
      rw [same, ih there fun v mem v' mem' =>
        tells v (List.mem_cons_of_mem _ mem) v' (List.mem_cons_of_mem _ mem')]

section Lined

variable (run : Log client (State.start workers cells kept threads) log s)

include run

theorem Log.lined_unique {r : ObjectId} {units units' : List (FutureId × Routine σ)}
    (lined : Lined client log s r units) (lined' : Lined client log s r units') :
    units = units' := by
  refine eq_of_map_fst (lined.order.trans lined'.order.symm) fun u mem u' mem' same => ?_
  obtain ⟨p, work, bound, own, _, task, eq⟩ := lined.bound u mem
  obtain ⟨q, work', bound', own', _, task', eq'⟩ := lined'.bound u' mem'
  obtain rfl := run.bound_unique bound bound' (by rw [own, own', same])
  rw [task] at task'
  have works := congrFun (Task.work.inj task') (s.shared.futures.strandOf u.1)
  rw [eq, eq', ← same]
  exact Routine.code_injective r works

theorem Log.lined_of_tidy {units : ObjectId → List (FutureId × Routine σ)}
    (tidy : Tidy cells (deeds client log) (events client log) s units)
    (isOpen : ∀ futures, .closed futures ∉ events client log) (idle : s.shared.inFlight = 0)
    (r : ObjectId) : Lined client log s r (units r) where
  order := (tidy.serial.order r).trans (run.trace.starts_eq_appends isOpen idle r)
  bound u mem := by
    obtain ⟨job, started, own⟩ := tidy.serial.started r u mem
    obtain ⟨g, turned⟩ := tidy.serial.turned mem
    rw [← own] at turned
    obtain ⟨p, work, bound, rfl, onLane, runs, eq⟩ :=
      run.routine_of_turned tidy.deeds turned started
    rw [own] at eq
    exact ⟨p, work, bound, own, onLane, runs, Routine.code_injective r eq⟩

theorem Log.ended_of_completed (usual : ∀ δ ∈ deeds client log, δ.Usual)
    (isOpen : ∀ futures, .closed futures ∉ events client log) {f : FutureId} {outcome : Outcome}
    (completed : Completed (events client log) s f outcome) :
    .ended f outcome ∈ events client log := by
  have foreign {e : Event} (ofCall : e.ofCall = true) : e ∉ events client log := fun mem => by
    obtain ⟨δ, inDeeds, tells⟩ := run.deed_of_event mem
    rw [(usual δ inDeeds).not_ofCall tells] at ofCall
    cases ofCall
  rcases run.trace.earned_of_completed completed with
    (ended | ⟨panic, behalf, mem, _⟩ | ⟨e, mem | mem, _⟩ | ⟨d, e, mem, _⟩) |
    ⟨refused | ⟨d, mem, _⟩, _⟩
  · exact ended
  · exact absurd mem (foreign rfl)
  · exact absurd mem (foreign rfl)
  · exact absurd mem (foreign rfl)
  · exact absurd mem (foreign rfl)
  · exact absurd refused (run.trace.not_refused_of_open isOpen f)
  · exact absurd mem (foreign rfl)

theorem Log.appends_of_counted {units : ObjectId → List (FutureId × Routine σ)}
    (tidy : Tidy cells (deeds client log) (events client log) s units)
    (isOpen : ∀ futures, .closed futures ∉ events client log) (idle : s.shared.inFlight = 0)
    {p : Placing (Cells σ)} {r : ObjectId} (bound : .bound p ∈ deeds client log)
    (onLane : p.place = .group r) {byClient : Bool}
    (counted : .counted p.future byClient ∈ events client log) :
    p.future ∈ appends r (events client log) := by
  have calm := run.trace.not_refused_of_open isOpen p.future
  obtain ⟨started | ⟨r', g, turned⟩, _⟩ := run.trace.ended_of_counted idle counted calm
  · exact absurd started (tidy.turns p.future)
  have appended := (run.trace.starts_sublist r').subset (mem_starts turned)
  obtain ⟨q, bound', same, onLane'⟩ := run.bound_of_appends appended
  obtain rfl := run.bound_unique bound bound' same.symm
  rw [onLane] at onLane'
  cases onLane'
  exact appended

/-- What a lane comes to while no work is in flight. -/
theorem Log.results_of_lined (tame : ∀ code ∈ threads, code.Tame)
    (isOpen : ∀ futures, .closed futures ∉ events client log) (idle : s.shared.inFlight = 0)
    {r : ObjectId} {units : List (FutureId × Routine σ)} (lined : Lined client log s r units) :
    (∀ p, .bound p ∈ deeds client log → p.place = .group r →
      ∀ byClient, .counted p.future byClient ∈ events client log →
        p.future ∈ units.map Prod.fst) ∧
    s.shared.world r = runAll units (cells r) ∧
    ∀ f outcome, (f, outcome) ∈ results units (cells r) →
      Completed (events client log) s f outcome := by
  obtain ⟨all, tidy⟩ := run.tidy tame
  obtain rfl := run.lined_unique lined (run.lined_of_tidy tidy isOpen idle r)
  have appended {f : FutureId} (mem : f ∈ (all r).map Prod.fst) :
      f ∈ appends r (events client log) := lined.order ▸ mem
  refine ⟨fun p bound onLane byClient counted => ?_, tidy.serial.between r fun u mem => ?_,
    fun f outcome mem => ?_⟩
  · rw [lined.order]
    exact run.appends_of_counted tidy isOpen idle bound onLane counted
  · exact (run.trace.ended_of_appends isOpen idle (appended (List.mem_map_of_mem mem))).2.2
  · have own : f ∈ (all r).map Prod.fst := by
      rw [← Routine.map_fst_results (all r) (cells r)]
      exact List.mem_map_of_mem mem
    obtain ⟨⟨byClient, counted⟩, _⟩ := run.trace.ended_of_appends isOpen idle (appended own)
    obtain ⟨outcome', completed⟩ := run.trace.completed_of_backed idle counted
    have ended := run.ended_of_completed tidy.deeds isOpen completed
    obtain rfl := tidy.serial.ended r f outcome mem outcome' ended
    exact completed

/-- Serial equivalence of a lane.  In any run of a tame client, with however many workers and
whoever acts when, while no work is in flight and the queue has not been closed: the units
on a receiver's lane are all that were counted for it, the receiver's cell is as they leave
it running one after another in the order of the lane, and their futures have the outcomes
that they have then.  Any other run that puts the same units there comes to the same. -/
theorem Log.sequential (tame : ∀ code ∈ threads, code.Tame)
    (isOpen : ∀ futures, .closed futures ∉ events client log) (idle : s.shared.inFlight = 0)
    (r : ObjectId) :
    ∃ units, Lined client log s r units ∧
      (∀ p, .bound p ∈ deeds client log → p.place = .group r →
        ∀ byClient, .counted p.future byClient ∈ events client log →
          p.future ∈ units.map Prod.fst) ∧
      s.shared.world r = runAll units (cells r) ∧
      (∀ f outcome, (f, outcome) ∈ results units (cells r) →
        Completed (events client log) s f outcome) ∧
      ∀ workers' kept' threads' log' s',
        Log client (State.start workers' cells kept' threads') log' s' →
        (∀ code ∈ threads', code.Tame) → (∀ futures, .closed futures ∉ events client log') →
        s'.shared.inFlight = 0 → Lined client log' s' r units →
          s'.shared.world r = s.shared.world r ∧
          ∀ f ∈ units.map Prod.fst, ∃ outcome, Completed (events client log) s f outcome ∧
            Completed (events client log') s' f outcome := by
  obtain ⟨all, tidy⟩ := run.tidy tame
  have lined := run.lined_of_tidy tidy isOpen idle r
  obtain ⟨counted, world, completed⟩ := run.results_of_lined tame isOpen idle lined
  refine ⟨all r, lined, counted, world, completed,
    fun workers' kept' threads' log' s' run' tame' isOpen' idle' lined' => ?_⟩
  obtain ⟨_, world', completed'⟩ := run'.results_of_lined tame' isOpen' idle' lined'
  refine ⟨world'.trans world.symm, fun f mem => ?_⟩
  rw [← Routine.map_fst_results (all r) (cells r)] at mem
  obtain ⟨⟨_, outcome⟩, among, rfl⟩ := List.mem_map.1 mem
  exact ⟨outcome, completed _ _ among, completed' _ _ among⟩

end Lined

def increment (last : Int64 → Routine Int64) : Routine Int64 :=
  .access id fun n => .access (fun _ => n + 1) fun _ => last n

/-- The first of two units panics when it has written. -/
def increments : List (FutureId × Routine Int64) :=
  [(1, increment fun _ => .panic (.text "spoiled")), (2, increment fun n => .finish (.ok (.int n)))]

def counter : Client (Cells Int64) where
  consult _ _ := .finish (.ok .nil)
  typeOf _ _ := { name := "Counter" }
  call _ _ _ _ := .finish (.ok .nil)

/-- A client that makes the next futures, for these units, and puts them on a lane. -/
def place (r : ObjectId) : List (FutureId × Routine Int64) → Code (Cells Int64)
  | [] => .finish (.ok .nil)
  | u :: units =>
    .create {} (fun _ => .finish (.ok .nil)) fun _ =>
      .schedule (.group r) (fun _ => u.2.code r) u.1 fun _ => place r units

theorem tame_place (r : ObjectId) (units : List (FutureId × Routine Int64)) :
    (place r units).Tame := by
  induction units with
  | nil => trivial
  | cons u units ih =>
    exact ⟨fun _ => trivial, fun _ => ⟨⟨r, fun _ => u.2, rfl, rfl⟩, fun _ => ih⟩⟩

def incrementsStart : State (Cells Int64) := State.start 2 (fun _ => 5) [2] [place 2 increments]

/-- The workers act in turn. -/
def incrementsTurns : List ThreadId :=
  List.replicate 40 2 ++ (List.replicate 60 [0, 1]).flatten

def incrementsLog : List (Beat (Cells Int64)) := incrementsStart.beats counter incrementsTurns

def incrementsEnd : State (Cells Int64) := (incrementsStart.replay counter incrementsTurns).2

/-- Neither increment is lost. -/
theorem sequential_increments : incrementsEnd.shared.world 2 = 7 ∧
    Completed (events counter incrementsLog) incrementsEnd 1
      (.error (.ofPanic (.text "spoiled"))) ∧
    Completed (events counter incrementsLog) incrementsEnd 2 (.ok (.int 6)) := by
  have run : Log counter incrementsStart incrementsLog incrementsEnd := log_beats _ _ _
  have isOpen : ∀ futures, .closed futures ∉ events counter incrementsLog :=
    not_closed (by decide +kernel)
  have tame : ∀ code ∈ [place 2 increments], code.Tame :=
    List.forall_mem_singleton.2 (tame_place 2 increments)
  obtain ⟨units, lined, _, world, completed, _⟩ := run.sequential tame isOpen rfl 2
  let placing (u : FutureId × Routine Int64) : Placing (Cells Int64) :=
    { place := .group 2
      task := Routine.task 2 fun _ => u.2
      future := u.1
      asker := .client u.1 }
  have bound : ∀ u ∈ increments, .bound (placing u) ∈ deeds counter incrementsLog :=
    List.forall_mem_cons.2 ⟨List.mem_of_getElem? (i := 3) rfl,
      List.forall_mem_singleton.2 (List.mem_of_getElem? (i := 15) rfl)⟩
  have known : Lined counter incrementsLog incrementsEnd 2 increments :=
    ⟨by decide +kernel, fun u mem => ⟨placing u, fun _ => u.2, bound u mem, rfl, rfl, rfl, rfl⟩⟩
  obtain rfl := run.lined_unique lined known
  exact ⟨world, completed 1 _ List.mem_cons_self,
    completed 2 _ (List.mem_cons_of_mem _ List.mem_cons_self)⟩

end State
end Strands
