/-
Steps that have to do with no unit and no arguments.

A frame is `isPlain` if it carries neither a unit on its way nor a request for arguments.
Most plain frames leave plain frames: `Frame.step_of_idles` says so once for all of them,
and that their steps bring no job to the queue or a lane and leave the requests that wait
for a future where they are.
-/
import Strands.Proofs.Deed
import Strands.Proofs.Leads

namespace Strands

variable {W : Type}

def Future.quests (u : Future W) : List (Quest W) :=
  match u.callback with
  | some (.argument r) => [.awaiting u.strand.id r]
  | _ => []

namespace Shared

def quests (s : Shared W) : List (Quest W) := s.futures.flatMap Future.quests

def jobs (s : Shared W) : List (Job W) := s.queuedJobs ++ s.laneJobs

theorem mem_laneJobs_modify {s : Shared W} {group : GroupId} {change : Group W → Group W}
    {job : Job W} (mem : job ∈ (s.modifyGroup group change).laneJobs) :
    job ∈ s.laneJobs ∨ ∃ g, s.groups[group]? = some g ∧ job ∈ (change g).jobs := by
  obtain ⟨g, inGroups, waits⟩ := List.mem_flatMap.1 mem
  obtain ⟨i, at?⟩ := List.mem_iff_getElem?.1 inGroups
  rw [modifyGroup, List.getElem?_modify] at at?
  obtain ⟨g', found, rfl⟩ := Option.map_eq_some_iff.1 at?
  by_cases same : group = i
  · subst same
    simp only [if_true] at waits
    exact .inr ⟨g', found, waits⟩
  · simp only [same, if_false] at waits
    exact .inl (List.mem_flatMap.2 ⟨g', List.mem_of_getElem? found, waits⟩)

theorem jobs_modifyGroup (s : Shared W) (group : GroupId) {change : Group W → Group W}
    (fewer : ∀ g, (change g).jobs ⊆ g.jobs) : (s.modifyGroup group change).jobs ⊆ s.jobs := by
  intro job mem
  rcases List.mem_append.1 mem with queued | onLane
  · exact List.mem_append_left _ queued
  · rcases mem_laneJobs_modify onLane with earlier | ⟨g, found, waits⟩
    · exact List.mem_append_right _ earlier
    · refine List.mem_append_right _ (List.mem_flatMap.2 ⟨g, ?_, fewer g waits⟩)
      exact List.mem_of_getElem? found

end Shared

theorem Shared.quests_modifyFuture (s : Shared W) (f : FutureId) {change : Future W → Future W}
    (same : ∀ u, (change u).quests = u.quests) : (s.modifyFuture f change).quests = s.quests := by
  have all : ∀ (fs : List (Future W)) (n : Nat),
      (fs.modify n change).flatMap Future.quests = fs.flatMap Future.quests := by
    intro fs
    induction fs with
    | nil => intro n; simp
    | cons u rest ih =>
      intro n
      cases n with
      | zero => simp [same]
      | succ n => simp [ih]
  cases f with
  | zero => rfl
  | succ n => exact all s.futures n

/-! ## Plain frames -/

def Role.isPlain : Role W → Bool
  | task _ | query _ _ => false
  | _ => true

namespace Frame

def isPlain : Frame W → Bool
  | running role _ | waiting role _ => role.isPlain
  | claim _ | enter _ | push _ _ | checkOpen _ _ _ | locate _ _ _ | append _ _ _ _ | query _ _
  | openCall _ _ _ | track _ _ | evaluate _ => false
  | _ => true

def idles : Frame W → Bool
  | running _ _ | waiting _ _ | claim _ | enter _ | push _ _ | checkOpen _ _ _ | locate _ _ _
  | append _ _ _ _ | query _ _ | openCall _ _ _ | evaluate _ | settle _ _ | track _ _ | poll
  | turn _ | askListeners _ | openStop _ _ _ _ => false
  | _ => true

end Frame

def Plain (frames : List (Frame W)) : Prop := ∀ frame ∈ frames, frame.isPlain = true

@[simp] theorem plain_nil : Plain ([] : List (Frame W)) := fun _ mem => by cases mem

@[simp] theorem plain_cons {frame : Frame W} {frames : List (Frame W)} :
    Plain (frame :: frames) ↔ frame.isPlain = true ∧ Plain frames := List.forall_mem_cons

@[simp] theorem plain_append {a b : List (Frame W)} : Plain (a ++ b) ↔ Plain a ∧ Plain b :=
  List.forall_mem_append

@[simp] theorem Asker.plain_answer (asker : Asker) (result : Except ScheduleError Unit) :
    Plain (asker.answer result : List (Frame W)) := by
  cases asker <;> simp [answer, Frame.isPlain]

@[simp] theorem Job.plain_refuse (job : Job W) : Plain job.refuse := by
  simp [refuse, Frame.isPlain]

/-- A frame that idles leaves plain frames. -/
theorem Frame.LeadsTo.isPlain {isOpen : Bool} {frame next : Frame W}
    (leads : frame.LeadsTo isOpen next) (idles : frame.idles = true) : next.isPlain = true := by
  cases leads <;> first | rfl | cases idles

structure Idle (s : Shared W) (p : Progress W) : Prop where
  frames : Plain p.frames
  quests : p.shared.quests = s.quests
  jobs : p.shared.jobs ⊆ s.jobs

/-- A step that touches neither futures nor jobs. -/
theorem Idle.of_same {s : Shared W} {p : Progress W} (frames : Plain p.frames)
    (futures : p.shared.futures = s.futures) (queue : p.shared.queue = s.queue)
    (groups : p.shared.groups = s.groups) : Idle s p where
  frames := frames
  quests := by rw [Shared.quests, futures]; rfl
  jobs := by
    intro job mem
    simpa only [Shared.jobs, Shared.queuedJobs, Shared.laneJobs, queue, groups] using mem

theorem Shared.receive_idle (s : Shared W) (reply : Reply) {p : Progress W} (frames : Plain p.frames)
    (shared : p.shared = s.receive reply) : Idle s p := by
  cases reply with
  | future made =>
    refine ⟨frames, ?_, ?_⟩
    · rw [shared]
      exact s.quests_modifyFuture made fun _ => rfl
    · rw [shared]
      exact fun _ mem => mem
  | _ => exact .of_same frames (by rw [shared]; rfl) (by rw [shared]; rfl) (by rw [shared]; rfl)

/-- The step of a frame that idles is idle, and no deed. -/
theorem Frame.step_of_idles {client : Client W} {sight : Sight} {choice : Choice} {s : Shared W}
    {frame : Frame W} {p : Progress W} (idles : frame.idles = true)
    (taken : frame.step client sight choice s = some p) :
    Idle s p ∧ frame.deed client s = .other := by
  have plain : Plain p.frames := fun next mem => (step_leads taken next mem).isPlain idles
  by_cases still : frame.lingers = true
  · have lingering := step_of_lingers still taken
    refine ⟨.of_same plain ?_ ?_ ?_, deed_of_lingers still client s⟩
    all_goals rw [lingering.shared]
  cases frame with
  | deliver reply => cases taken; exact ⟨s.receive_idle reply plain rfl, rfl⟩
  | submit group asker =>
    cases taken
    refine ⟨?_, rfl⟩
    revert plain
    cases shut : s.queue.closed with
    | true =>
      simp only [submitStep, RunQueue.push, shut, if_true]
      exact fun plain => .of_same plain rfl rfl rfl
    | false =>
      simp only [submitStep, RunQueue.push, shut]
      refine fun plain => ⟨plain, rfl, fun job mem => ?_⟩
      simpa [Shared.jobs, Shared.queuedJobs, Shared.laneJobs] using mem
  | drain group =>
    cases taken
    refine ⟨⟨plain, ?_, ?_⟩, rfl⟩ <;> simp only [drainStep]
    · split <;> rfl
    · split
      · exact s.jobs_modifyGroup group fun g => List.nil_subset _
      · exact fun _ mem => mem
  | announce f =>
    cases taken
    exact ⟨⟨plain, s.quests_modifyFuture f fun _ => rfl, fun _ mem => mem⟩, rfl⟩
  | endTurn group =>
    cases taken
    refine ⟨⟨plain, ?_, ?_⟩, rfl⟩ <;> simp only [endTurnStep]
    · split <;> rfl
    · split
      · exact s.jobs_modifyGroup group fun g => List.Subset.refl _
      · exact fun _ mem => mem
  | awaitIdle =>
    simp only [step, awaitIdleStep] at taken
    split at taken <;> cases taken
    exact ⟨.of_same plain rfl rfl rfl, rfl⟩
  | close =>
    cases taken
    refine ⟨⟨plain, rfl, fun job mem => ?_⟩, rfl⟩
    rcases List.mem_append.1 mem with queued | onLane
    · cases queued
    · exact List.mem_append_right _ onLane
  | awaitListeners stopping =>
    simp only [step, awaitListenersStep] at taken
    split at taken
    · cases taken
      exact ⟨.of_same plain rfl rfl rfl, rfl⟩
    · split at taken <;> cases taken
      exact ⟨.of_same plain rfl rfl rfl, rfl⟩
  | dropHandle | shutdown | runHandlers stopping | leave | discard job | takeHandlers shutsDown
  | readListeners stopping => cases taken; exact ⟨.of_same plain rfl rfl rfl, rfl⟩
  | _ => first | exact absurd rfl still | cases idles

end Strands
