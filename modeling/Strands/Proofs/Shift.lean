/-
What steps do to lanes, to the table of groups, to the free lane and to the count of
handles.

`Event.Shifts` reads off an event what becomes of the groups and of the table,
`Event.Lines` what becomes of the jobs of the free lane, and `Event.Grips` how many
handles of the scheduler there are.  Only finding a receiver's group leaves a frame
that is about to put a job on a lane, and that frame has the group that was found:
`Shift.targets`.  `Move.shift` says all of this of every move.
-/
import Strands.Proofs.Sound

namespace Strands

variable {W : Type}

@[simp] def Frame.target? : Frame W → Option (ObjectId × GroupId)
  | append receiver group _ _ => some (receiver, group)
  | _ => none

def targets (frames : List (Frame W)) : List (ObjectId × GroupId) :=
  frames.filterMap Frame.target?

@[simp] theorem targets_nil : targets ([] : List (Frame W)) = [] := rfl

@[simp] theorem targets_cons (frame : Frame W) (frames : List (Frame W)) :
    targets (frame :: frames) = frame.target?.toList ++ targets frames := by
  unfold targets
  rw [List.filterMap_cons]
  cases frame.target? <;> rfl

@[simp] theorem targets_append (a b : List (Frame W)) :
    targets (a ++ b) = targets a ++ targets b := List.filterMap_append

def Event.Shifts (isAlive : ObjectId → Bool) (s s' : Shared W) : Event → Prop
  | located receiver => s'.groups = (s.locate isAlive receiver).2.groups ∧
      s'.table = (s.locate isAlive receiver).2.table
  | swept => s'.groups = s.groups ∧ s'.table = (s.sweep isAlive).table
  | appended _ group f took => s'.table = s.table ∧ ∃ g job, s.groups[group]? = some g ∧
      job.future = f ∧ took = !g.taken ∧ s'.groups = s.groups.modify group (·.append job)
  | drained group futures => s'.table = s.table ∧
      s'.groups = s.groups.modify group Group.drain ∧
      ∀ g, s.groups[group]? = some g → futures = g.jobs.map Job.future
  | turned receiver group f => s'.table = s.table ∧ ∃ g job rest, s.groups[group]? = some g ∧
      g.object = receiver ∧ g.jobs = job :: rest ∧ job.future = f ∧
      s'.groups = s.groups.modify group fun g => { g with jobs := rest }
  | turnEnded group => s'.table = s.table ∧
      (∀ g, s.groups[group]? = some g → g.jobs = []) ∧
      s'.groups = s.groups.modify group fun g => { g with taken := false }
  | _ => s'.groups = s.groups ∧ s'.table = s.table

/-- The jobs of the free lane that wait, by their futures. -/
def Shared.line (s : Shared W) : List FutureId := Item.futures s.queue.items

namespace Shared

variable {s s' : Shared W}

theorem line_push {job : Job W} (items : s'.queue.items = s.queue.items ++ [.job job]) :
    s'.line = s.line ++ [job.future] := by
  unfold line
  rw [items]
  exact List.filterMap_append

theorem line_submit {group : GroupId} (items : s'.queue.items = s.queue.items ++ [.group group]) :
    s'.line = s.line := by
  unfold line
  rw [items]
  exact List.filterMap_append.trans (List.append_nil _)

theorem line_job {job : Job W} {others : List (Item W)} (items : s.queue.items = .job job :: others) :
    s.line = job.future :: Item.futures others := by
  unfold line
  rw [items]
  rfl

theorem line_group {group : GroupId} {others : List (Item W)}
    (items : s.queue.items = .group group :: others) : s.line = Item.futures others := by
  unfold line
  rw [items]
  rfl

theorem line_locate (s : Shared W) (isAlive : ObjectId → Bool) (receiver : ObjectId) :
    (s.locate isAlive receiver).2.line = s.line := by
  unfold locate
  split <;> rfl

theorem handles_locate (s : Shared W) (isAlive : ObjectId → Bool) (receiver : ObjectId) :
    (s.locate isAlive receiver).2.handles = s.handles := by
  unfold locate
  split <;> rfl

end Shared

def Event.Lines (s s' : Shared W) : Event → Prop
  | queued f => s'.line = s.line ++ [f]
  | started f => s.line = f :: s'.line
  | closed futures => futures = s.line ∧ s'.line = []
  | _ => s'.line = s.line

def Event.Grips (s s' : Shared W) : Event → Prop
  | handleTaken | tracked _ | argument _ _ | resolving => s'.handles = s.handles + 1
  | handleDropped last => s'.handles = s.handles - 1 ∧ (last = true ↔ s.handles = 1)
  | _ => s'.handles = s.handles

structure Shift (isAlive : ObjectId → Bool) (s : Shared W) (e : Event) (p : Progress W) :
    Prop where
  shared : e.Shifts isAlive s p.shared
  line : e.Lines s p.shared
  grips : e.Grips s p.shared
  targets : ∀ target ∈ Strands.targets p.frames, ∃ receiver,
    e = .located receiver ∧ target = (receiver, (s.locate isAlive receiver).1)

theorem List.modify_congr {α : Type} {l : List α} {n : Nat} {a : α} {f g : α → α}
    (found : l[n]? = some a) (same : f a = g a) : l.modify n f = l.modify n g := by
  induction l generalizing n with
  | nil => simp at found
  | cons b rest ih =>
    cases n with
    | zero =>
      have : b = a := by simpa using found
      simp [this, same]
    | succ n =>
      have found : rest[n]? = some a := by simpa using found
      rw [List.modify_succ_cons, List.modify_succ_cons, ih found]

theorem List.modify_of_none {α : Type} {l : List α} {n : Nat} (f : α → α) (found : l[n]? = none) :
    l.modify n f = l := List.modify_eq_self (List.getElem?_eq_none_iff.1 found)

theorem List.modify_of_same {α : Type} {l : List α} {n : Nat} {a : α} {f : α → α}
    (found : l[n]? = some a) (same : f a = a) : l.modify n f = l := by
  rw [List.modify_congr (g := id) found same]
  exact List.modify_id n l

section Shifting

variable {client : Client W} {worker : Bool} {isAlive : ObjectId → Bool} {s : Shared W}
  {below : List (Frame W)}

theorem Shift.quiet {p : Progress W} {e : Event} (groups : p.shared.groups = s.groups)
    (table : p.shared.table = s.table) (targets : Strands.targets p.frames = [])
    (quiet : e.Shifts isAlive s p.shared ↔ p.shared.groups = s.groups ∧ p.shared.table = s.table)
    (line : e.Lines s p.shared) (grips : e.Grips s p.shared) : Shift isAlive s e p where
  shared := quiet.2 ⟨groups, table⟩
  line := line
  grips := grips
  targets target mem := by
    rw [targets] at mem
    cases mem

@[simp] theorem Asker.targets_answer (asker : Asker) (result : Except ScheduleError Unit) :
    targets (asker.answer result : List (Frame W)) = [] := by
  cases asker <;> rfl

@[simp] theorem Job.targets_refuse (job : Job W) : targets job.refuse = [] := rfl

@[simp] theorem Job.targets_refuse_all (jobs : List (Job W)) :
    targets (jobs.flatMap Job.refuse) = [] := by
  induction jobs with
  | nil => rfl
  | cons job rest ih => rw [List.flatMap_cons, targets_append, ih]; rfl

@[simp] theorem Item.targets_refuse_all (items : List (Item W)) :
    targets (items.flatMap Item.refuse) = [] := by
  induction items with
  | nil => rfl
  | cons item rest ih =>
    rw [List.flatMap_cons, targets_append, ih]
    cases item <;> rfl

@[simp] theorem Next.targets_resume (next : Next W) (direct : Bool)
    (result : Except DomainError (List Value)) : targets (next.resume direct result) = [] := by
  cases next <;> cases result <;> rfl

@[simp] theorem Next.targets_abandon (next : Next W) (panic : Panic) :
    targets (next.abandon panic) = [] := by
  cases next <;> rfl

@[simp] theorem Next.targets_takenUp (next : Next W) : targets next.takenUp = [] := by
  cases next <;> rfl

@[simp] theorem Callback.targets_notify (outcome : Outcome) (callback : Callback W) :
    targets (callback.notify outcome) = [] := by
  cases callback with
  | argument r => cases outcome <;> simp [notify]
  | _ => rfl

theorem Next.shifts_placed {s' : Shared W} (next : Next W) :
    next.placedEvent.Shifts isAlive s s' ↔ s'.groups = s.groups ∧ s'.table = s.table := by
  cases next <;> exact Iff.rfl

theorem Next.shifts_failed {s' : Shared W} (next : Next W) (e : DomainError) :
    (next.failedEvent e).Shifts isAlive s s' ↔ s'.groups = s.groups ∧ s'.table = s.table := by
  cases next <;> exact Iff.rfl

theorem Next.lines_placed (next : Next W) : next.placedEvent.Lines s s := by
  cases next <;> exact rfl

theorem Next.grips_placed (next : Next W) : next.placedEvent.Grips s s := by
  cases next <;> exact rfl

theorem Next.grips_failed (next : Next W) (e : DomainError) : (next.failedEvent e).Grips s s := by
  cases next <;> exact rfl

theorem Next.lines_failed (next : Next W) (e : DomainError) : (next.failedEvent e).Lines s s := by
  cases next <;> exact rfl

theorem Site.answered_shift (object : ObjectId) (type : ObjectType W) (site : Site W) :
    Shift isAlive s (site.answeredEvent type) (site.answered s object type) := by
  cases site with
  | omitted lookup =>
    cases missing : type.omitted lookup.method lookup.args.length with
    | error e =>
      simp only [answered, answeredEvent, missing]
      exact Shift.quiet rfl rfl (by simp) (Next.shifts_failed ..) (Next.lines_failed _ _)
        (Next.grips_failed _ _)
    | ok pending =>
      cases pending with
      | nil =>
        simp only [answered, answeredEvent, missing]
        exact Shift.quiet rfl rfl (by simp) (Next.shifts_placed ..) (Next.lines_placed _)
          (Next.grips_placed _)
      | cons first others =>
        simp only [answered, answeredEvent, missing]
        exact Shift.quiet rfl rfl rfl Iff.rfl rfl rfl
  | expressions lookup pending => exact Shift.quiet rfl rfl (by simp [answered]) Iff.rfl rfl rfl
  | listener stopping =>
    refine Shift.quiet rfl rfl ?_ Iff.rfl rfl rfl
    cases method : type.method? stopMethod <;> simp [answered, method]
  | _ => exact Shift.quiet rfl rfl rfl Iff.rfl rfl rfl

theorem Site.panicked_shift (object : ObjectId) (panic : Panic) (site : Site W) :
    Shift isAlive s (site.panickedEvent panic)
      { shared := s, frames := site.panicked object panic } := by
  cases site with
  | omitted lookup | expressions lookup pending =>
    exact Shift.quiet rfl rfl (by simp [panicked]) (Next.shifts_failed ..) (Next.lines_failed _ _)
      (Next.grips_failed _ _)
  | _ => exact Shift.quiet rfl rfl rfl Iff.rfl rfl rfl

theorem Role.ended_shift (role : Role W) (result : Except Panic Outcome) :
    Shift isAlive s (role.endedEvent client s result) (role.ended client s result) := by
  cases role with
  | query object site =>
    cases result with
    | ok outcome => exact site.answered_shift object _
    | error panic => exact site.panicked_shift object panic
  | continuation | call receiver args => cases result <;> exact Shift.quiet rfl rfl rfl Iff.rfl rfl rfl
  | _ => exact Shift.quiet rfl rfl rfl Iff.rfl rfl rfl

theorem Request.serve_shift (sight : Sight) (request : Request) (role : Role W)
    (next : Reply → Code W) :
    Shift sight.isAlive s (request.event s)
      { request.serve client sight s with
        frames := (request.serve client sight s).frames ++ [.waiting role next] } := by
  cases request with
  | takeHandle =>
    by_cases gone : s.handles = 0 <;> simp only [serve, event, gone, if_true, if_false] <;>
      exact Shift.quiet rfl rfl rfl Iff.rfl rfl rfl
  | view future =>
    refine Shift.quiet rfl rfl ?_ Iff.rfl rfl rfl
    simp only [serve]
    split <;> rfl
  | wait future | waitAtMost future milliseconds =>
    refine Shift.quiet rfl rfl ?_ Iff.rfl rfl rfl
    cases had : s.hasHandle future <;> simp only [serve, had] <;> rfl
  | sweep =>
    refine ⟨⟨rfl, rfl⟩, rfl, rfl, fun target mem => ?_⟩
    simp [serve] at mem
  | _ => exact Shift.quiet rfl rfl rfl Iff.rfl rfl rfl

theorem Code.step_shift {sight : Sight} {late : Bool} {role : Role W} {code : Code W}
    {p : Progress W} (taken : code.step client sight late s role = some p) :
    Shift sight.isAlive s (code.event client s role) p := by
  cases code with
  | finish outcome | panic payload => cases taken; exact role.ended_shift _
  | ask request next => cases taken; exact request.serve_shift sight role next
  | create spec callback next => cases taken; exact Shift.quiet rfl rfl rfl Iff.rfl rfl rfl
  | schedule place work future next =>
    cases taken
    cases had : s.hasHandle future <;> simp only [event, had, if_true] <;>
      exact Shift.quiet rfl rfl rfl Iff.rfl rfl rfl
  | invoke mode invocation callback next =>
    cases taken
    refine Shift.quiet rfl rfl ?_ Iff.rfl rfl rfl
    simp only [Invocation.dispatch]
    split
    · split <;> rfl
    · rfl
    · rfl
  | await ready next =>
    simp only [step] at taken
    split at taken <;> cases taken
    exact Shift.quiet rfl rfl rfl Iff.rfl rfl rfl
  | awaitAtMost milliseconds ready next =>
    simp only [step] at taken
    split at taken
    · cases taken
      exact Shift.quiet rfl rfl rfl Iff.rfl rfl rfl
    · split at taken <;> cases taken
      exact Shift.quiet rfl rfl rfl Iff.rfl rfl rfl
  | _ => cases taken; exact Shift.quiet rfl rfl rfl Iff.rfl rfl rfl

theorem claimStep_shift (p : Placing W) :
    Shift isAlive s (Frame.event client worker s below (.claim p)) (claimStep s p) := by
  cases found : s.futures.get? p.future with
  | none =>
    simp only [claimStep, Frame.event, found]
    exact Shift.quiet rfl rfl (by simp) Iff.rfl rfl rfl
  | some u =>
    obtain ⟨strand, returnType, state, callback, notified, claimed, kept⟩ := u
    cases claimed with
    | true =>
      simp only [claimStep, Frame.event, found]
      exact Shift.quiet rfl rfl (by simp) Iff.rfl rfl rfl
    | false =>
      simp only [claimStep, Frame.event, found]
      exact Shift.quiet rfl rfl rfl Iff.rfl rfl rfl

theorem settleStep_shift (f : FutureId) (outcome : Outcome) :
    Shift isAlive s (Frame.event client worker s below (.settle f outcome))
      (settleStep s f outcome) := by
  cases found : s.futures.get? f with
  | none =>
    simp only [settleStep, Frame.event, found]
    exact Shift.quiet rfl rfl rfl Iff.rfl rfl rfl
  | some u =>
    obtain ⟨strand, returnType, state, callback, notified, claimed, kept⟩ := u
    cases state with
    | some earlier =>
      simp only [settleStep, Frame.event, found]
      exact Shift.quiet rfl rfl rfl Iff.rfl rfl rfl
    | none =>
      simp only [settleStep, Frame.event, found]
      refine Shift.quiet rfl rfl ?_ Iff.rfl rfl rfl
      cases callback <;> simp

theorem appendStep_shift (receiver : ObjectId) (group : GroupId) (job : Job W) (asker : Asker) :
    Shift isAlive s (Frame.event client worker s below (.append receiver group job asker))
      (appendStep s group job asker) := by
  cases found : s.groups[group]? with
  | none =>
    simp only [appendStep, Frame.event, found]
    exact Shift.quiet rfl rfl (by simp) Iff.rfl rfl rfl
  | some g =>
    simp only [appendStep, Frame.event, found]
    refine ⟨⟨rfl, g, job, found, rfl, rfl, rfl⟩, rfl, rfl, fun target mem => ?_⟩
    cases taken : g.taken <;> simp [taken] at mem

theorem drainStep_shift (group : GroupId) :
    Shift isAlive s (Frame.event client worker s below (.drain group)) (drainStep s group) := by
  cases found : s.groups[group]? with
  | none =>
    simp only [drainStep, Frame.event, found]
    refine ⟨⟨rfl, (List.modify_of_none _ found).symm, fun g h => ?_⟩, rfl, rfl, fun target mem => ?_⟩
    · rw [found] at h
      cases h
    · simp at mem
  | some g =>
    simp only [drainStep, Frame.event, found]
    refine ⟨⟨rfl, rfl, fun h h' => ?_⟩, rfl, rfl, fun target mem => ?_⟩
    · rw [found] at h'
      cases h'
      rfl
    · simp at mem

theorem turnStep_shift (group : GroupId) :
    Shift isAlive s (Frame.event client worker s below (.turn group))
      (turnStep client s group) := by
  cases found : s.groups[group]? with
  | none =>
    simp only [turnStep, Frame.event, found]
    refine ⟨⟨rfl, fun g h => ?_, (List.modify_of_none _ found).symm⟩, rfl, rfl, fun target mem => ?_⟩
    · rw [found] at h
      cases h
    · simp at mem
  | some g =>
    cases jobs : g.jobs with
    | nil =>
      simp only [turnStep, Frame.event, Group.next, found, jobs]
      refine ⟨⟨rfl, fun h h' => ?_, ?_⟩, rfl, rfl, fun target mem => ?_⟩
      · rw [found] at h'
        cases h'
        exact jobs
      · exact List.modify_congr found (by simp [jobs])
      · simp at mem
    | cons job rest =>
      simp only [turnStep, Frame.event, Group.next, found, jobs]
      refine ⟨⟨rfl, g, job, rest, found, rfl, jobs, rfl, ?_⟩, rfl, rfl, fun target mem => ?_⟩
      · exact List.modify_congr found (by simp [jobs])
      · simp [Job.run] at mem

theorem endTurnStep_shift (group : GroupId) :
    Shift isAlive s (Frame.event client worker s below (.endTurn group))
      (endTurnStep s group) := by
  cases found : s.groups[group]? with
  | none =>
    simp only [endTurnStep, Frame.event, found]
    refine ⟨⟨rfl, fun g h => ?_, (List.modify_of_none _ found).symm⟩, rfl, rfl, fun target mem => ?_⟩
    · rw [found] at h
      cases h
    · simp at mem
  | some g =>
    cases waiting : g.jobs.isEmpty with
    | true =>
      simp only [endTurnStep, Frame.event, found, waiting]
      refine ⟨⟨rfl, fun h h' => ?_, ?_⟩, rfl, rfl, fun target mem => ?_⟩
      · rw [found] at h'
        cases h'
        exact List.isEmpty_iff.1 waiting
      · exact List.modify_congr found (by simp [Group.endTurn, waiting])
      · simp at mem
    | false =>
      simp only [endTurnStep, Frame.event, found, waiting]
      refine Shift.quiet ?_ rfl rfl Iff.rfl rfl rfl
      exact List.modify_of_same found (by simp [Group.endTurn, waiting])

theorem pollStep_shift :
    Shift isAlive s (Frame.event client worker s below .poll) (pollStep client s) := by
  cases items : s.queue.items with
  | nil =>
    simp only [pollStep, Frame.event, RunQueue.pop, items]
    exact Shift.quiet rfl rfl rfl Iff.rfl rfl rfl
  | cons item others =>
    cases item <;> simp only [pollStep, Frame.event, RunQueue.pop, items]
    · exact Shift.quiet rfl rfl rfl Iff.rfl (Shared.line_job items) rfl
    · exact Shift.quiet rfl rfl rfl Iff.rfl (Shared.line_group items).symm rfl

theorem pushStep_shift (job : Job W) (asker : Asker) :
    Shift isAlive s (Frame.event client worker s below (.push job asker))
      (pushStep s job asker) := by
  cases closed : s.queue.closed <;>
    simp only [pushStep, RunQueue.push, Frame.event, closed, if_true]
  · exact Shift.quiet rfl rfl (by simp) Iff.rfl (Shared.line_push rfl) rfl
  · exact Shift.quiet rfl rfl (by simp) Iff.rfl rfl rfl

theorem submitStep_shift (group : GroupId) (asker : Asker) :
    Shift isAlive s (Frame.event client worker s below (.submit group asker))
      (submitStep s group asker) := by
  cases closed : s.queue.closed <;>
    simp only [submitStep, RunQueue.push, Frame.event, closed, if_true]
  · exact Shift.quiet rfl rfl (by simp) Iff.rfl (Shared.line_submit rfl) rfl
  · exact Shift.quiet rfl rfl (by simp) Iff.rfl rfl rfl

theorem evaluateStep_shift (r : Resolution W) :
    Shift isAlive s (Frame.event client worker s below (.evaluate r)) (evaluateStep s r) := by
  cases pending : r.pending with
  | nil =>
    simp only [evaluateStep, Frame.event, pending]
    exact Shift.quiet rfl rfl (by simp) (Next.shifts_placed ..) (Next.lines_placed _)
      (Next.grips_placed _)
  | cons first others =>
    simp only [evaluateStep, Frame.event, pending]
    exact Shift.quiet rfl rfl rfl Iff.rfl rfl rfl

theorem targets_of_emptyHanded {frames : List (Frame W)}
    (empty : ∀ frame ∈ frames, frame.isEmptyHanded = true) : targets frames = [] := by
  refine List.filterMap_eq_nil_iff.2 fun frame mem => ?_
  have empty := empty frame mem
  cases frame <;> first | rfl | cases empty

theorem Lingering.shift {p : Progress W} (lingering : Lingering s p) : Shift isAlive s .other p :=
  Shift.quiet (by rw [lingering.shared]) (by rw [lingering.shared])
    (targets_of_emptyHanded lingering.frames) Iff.rfl
    (show p.shared.line = s.line by rw [lingering.shared]; rfl)
    (show p.shared.handles = s.handles by rw [lingering.shared])

theorem Frame.step_shift {sight : Sight} {choice : Choice} {frame : Frame W} {p : Progress W}
    (taken : frame.step client sight choice s = some p) :
    Shift sight.isAlive s (frame.event client worker s below) p := by
  by_cases lingers : frame.lingers = true
  · rw [event_of_lingers lingers]
    exact (step_of_lingers lingers taken).shift
  cases frame with
  | running role code => exact Code.step_shift taken
  | waiting role next => cases taken
  | deliver reply =>
    cases taken
    cases reply <;> exact Shift.quiet rfl rfl rfl Iff.rfl rfl rfl
  | claim placing => cases taken; exact claimStep_shift placing
  | enter placing =>
    cases taken
    refine Shift.quiet rfl rfl ?_ Iff.rfl rfl rfl
    cases place : placing.place <;> simp [enterStep, place]
  | push job asker => cases taken; exact pushStep_shift job asker
  | checkOpen receiver job asker =>
    cases taken
    cases closed : s.queue.closed <;> simp only [checkOpenStep, event, closed, if_true] <;>
      exact Shift.quiet rfl rfl (by simp) Iff.rfl rfl rfl
  | locate receiver job asker =>
    cases taken
    refine ⟨⟨rfl, rfl⟩, s.line_locate sight.isAlive receiver,
      s.handles_locate sight.isAlive receiver, fun target mem => ⟨receiver, rfl, ?_⟩⟩
    simpa [locateStep] using mem
  | append receiver group job asker => cases taken; exact appendStep_shift receiver group job asker
  | submit group asker => cases taken; exact submitStep_shift group asker
  | drain group => cases taken; exact drainStep_shift group
  | settle f outcome => cases taken; exact settleStep_shift f outcome
  | openCall call metadata fault =>
    cases taken
    refine Shift.quiet rfl rfl ?_ Iff.rfl rfl rfl
    cases fault <;> cases mode : call.mode <;> simp [openCallStep, mode]
  | evaluate r => cases taken; exact evaluateStep_shift r
  | poll => cases taken; exact pollStep_shift
  | turn group => cases taken; exact turnStep_shift group
  | endTurn group => cases taken; exact endTurnStep_shift group
  | dropHandle =>
    cases taken
    refine Shift.quiet rfl rfl ?_ Iff.rfl rfl ⟨rfl, decide_eq_true_iff⟩
    by_cases last : s.handles = 1 <;> simp [dropHandleStep, last]
  | shutdown =>
    cases taken
    refine Shift.quiet rfl rfl ?_ Iff.rfl rfl rfl
    cases raised : s.flag <;> cases sight.worker <;> simp [shutdownStep, raised]
  | awaitIdle =>
    simp only [step, awaitIdleStep] at taken
    split at taken <;> cases taken
    exact Shift.quiet rfl rfl rfl Iff.rfl rfl rfl
  | close =>
    cases taken
    exact Shift.quiet rfl rfl (by simp [closeStep]) Iff.rfl ⟨rfl, rfl⟩ rfl
  | runHandlers stopping =>
    cases taken
    refine Shift.quiet rfl rfl ?_ Iff.rfl rfl rfl
    cases left : stopping.handlers <;> simp [runHandlersStep, left]
  | askListeners stopping =>
    cases taken
    refine Shift.quiet rfl rfl ?_ Iff.rfl rfl rfl
    cases left : stopping.listeners <;> simp [askListenersStep, left]
  | awaitListeners stopping =>
    simp only [step, awaitListenersStep] at taken
    split at taken
    · cases taken
      refine Shift.quiet rfl rfl ?_ Iff.rfl rfl rfl
      cases stopping.shutsDown <;> rfl
    · split at taken <;> cases taken
      exact Shift.quiet rfl rfl rfl Iff.rfl rfl rfl
  | announce f | leave | discard job | query object site | track call lane
  | takeHandlers shutsDown | readListeners stopping
  | openStop listener lane metadata stopping =>
    cases taken
    exact Shift.quiet rfl rfl rfl Iff.rfl rfl rfl
  | _ => exact absurd rfl lingers

theorem Move.shift (worker : Bool) (below : List (Frame W)) {sight : Sight} {choice : Choice}
    {top : List (Frame W)} {p : Progress W} (move : Move client sight choice s top p) :
    Shift sight.isAlive s (Move.event client worker s below top) p := by
  cases move with
  | receive reply role next => cases reply <;> exact Shift.quiet rfl rfl rfl Iff.rfl rfl rfl
  | pass reply held => exact Shift.quiet rfl rfl rfl Iff.rfl rfl rfl
  | act taken => exact Frame.step_shift taken

end Shifting
end Strands
