/-
Who works for the scheduler, and what each thread is at.

The workers are the threads with the first numbers, and no thread becomes a worker or
ceases to be one: `State.Trace.staff`.  What a thread does next is settled by the frame it
is at, its innermost, and by that alone: `Acted.acting`.
-/
import Strands.Proofs.Beat
import Strands.Proofs.RunQueueSteps

namespace Strands

variable {W : Type}

namespace State

def acting (s : State W) (thread : ThreadId) : Option (Frame W) :=
  s.threads[thread]?.bind fun t => t.stack.head?

def isWorker (s : State W) (thread : ThreadId) : Bool :=
  match s.threads[thread]? with
  | some t => t.worker
  | none => false

theorem isWorker_eq {s : State W} {thread : ThreadId} {t : Thread W}
    (found : s.threads[thread]? = some t) : s.isWorker thread = t.worker := by
  unfold isWorker
  rw [found]

theorem acting_eq {s : State W} {thread : ThreadId} {t : Thread W} {frame : Frame W}
    {below : List (Frame W)} (found : s.threads[thread]? = some t)
    (stack : t.stack = frame :: below) : s.acting thread = some frame := by
  simp [acting, found, stack]

theorem exists_of_acting {s : State W} {thread : ThreadId} {frame : Frame W}
    (stands : s.acting thread = some frame) :
    ∃ t below, s.threads[thread]? = some t ∧ t.stack = frame :: below := by
  obtain ⟨t, found, head⟩ := Option.bind_eq_some_iff.1 stands
  obtain ⟨below, stack⟩ := List.head?_eq_some_iff.1 head
  exact ⟨t, below, found, stack⟩

end State

/-- A move of one frame is its step. -/
theorem Move.step_of_single {client : Client W} {sight : Sight} {choice : Choice} {s : Shared W}
    {frame : Frame W} {p : Progress W} (move : Move client sight choice s [frame] p) :
    frame.step client sight choice s = some p := by
  cases move with
  | act taken => exact taken

namespace Acted

variable {client : Client W} {s s' : State W} {thread : ThreadId} {choice : Choice}
  (acted : Acted client s s' thread choice)

include acted

theorem acting : s.acting thread = acted.top.head? := by
  obtain ⟨frame, above, top⟩ := acted.move.top_ne_nil
  have stack : acted.actor.stack = frame :: (above ++ acted.below) := by
    rw [acted.stack, top, List.cons_append]
  rw [State.acting_eq acted.actor_eq stack, top]
  rfl

theorem acting' : s'.acting thread = (acted.progress.frames ++ acted.below).head? := by
  rw [State.acting, acted.actor_eq']
  rfl

/-- Any other thread is left as it is. -/
theorem stays {other : ThreadId} (different : other ≠ thread) {t : Thread W}
    (found : s.threads[other]? = some t) : s'.threads[other]? = some t := by
  obtain ⟨before, rfl, after, actor, top, below, p, threads, _, _, _, threads', _⟩ := acted
  rw [threads] at found
  rw [threads']
  have bound : other < (before ++ actor :: after).length := by
    obtain ⟨bound, _⟩ := List.getElem?_eq_some_iff.1 found
    exact bound
  rw [List.getElem?_append_left (by simpa using bound)]
  rcases Nat.lt_or_gt_of_ne different with lt | gt
  · rwa [List.getElem?_append_left lt] at found ⊢
  · obtain ⟨n, eq⟩ : ∃ n, other - before.length = n + 1 :=
      ⟨_, (Nat.sub_add_cancel (Nat.sub_pos_of_lt gt)).symm⟩
    rwa [List.getElem?_append_right (Nat.le_of_lt gt), eq, List.getElem?_cons_succ] at found ⊢

theorem acting_stays {other : ThreadId} (different : other ≠ thread) {frame : Frame W}
    (stands : s.acting other = some frame) : s'.acting other = some frame := by
  obtain ⟨t, below, found, stack⟩ := State.exists_of_acting stands
  exact State.acting_eq (acted.stays different found) stack

theorem acting_other {other : ThreadId} (different : other ≠ thread) {frame : Frame W}
    (stands : s'.acting other = some frame) :
    s.acting other = some frame ∨ ∃ code, frame = .running .thread code := by
  obtain ⟨t, below, found, stack⟩ := State.exists_of_acting stands
  rcases acted.other_eq different found with earlier | ⟨code, _, rfl⟩
  · exact .inl (State.acting_eq earlier stack)
  · obtain ⟨rfl, _⟩ := List.cons.inj stack
    exact .inr ⟨code, rfl⟩

theorem acting_join {other : ThreadId} (different : other ≠ thread) {list : List ThreadId} :
    s'.acting other = some (.join list) ↔ s.acting other = some (.join list) := by
  refine ⟨fun stands => ?_, acted.acting_stays different⟩
  exact (acted.acting_other different stands).resolve_right fun ⟨_, eq⟩ => by cases eq

/-- Unless it delivers a reply, a thread replaces the frame it is at and no other. -/
theorem top_of_acting {frame : Frame W} (stands : s.acting thread = some frame)
    (notDeliver : ∀ reply, frame ≠ .deliver reply) : acted.top = [frame] := by
  have head := acted.acting.symm.trans stands
  have move := acted.move
  generalize acted.top = top, acted.progress = p at head move
  cases move with
  | receive reply role next => exact absurd (Option.some.inj head).symm (notDeliver reply)
  | pass reply held => exact absurd (Option.some.inj head).symm (notDeliver reply)
  | act taken =>
    cases Option.some.inj head
    rfl

/-- A step starts threads that are no workers and changes none. -/
theorem staff : s'.threads.map Thread.worker =
    s.threads.map Thread.worker ++ List.replicate acted.progress.spawned.length false := by
  have spawned : (acted.progress.spawned.map State.clientThread).map Thread.worker =
      List.replicate acted.progress.spawned.length false := by
    rw [List.map_map]
    exact List.map_const' ..
  rw [acted.threads', acted.threads, List.map_append, spawned]
  simp

end Acted

namespace State

variable {client : Client W} {workers : Nat} {world : W} {kept : List ObjectId}
  {threads : List (Code W)} {s : State W} {history : List Event}

/-- A thread whose frame cannot act does not act. -/
theorem step_eq_none {thread : ThreadId} {choice : Choice} {frame : Frame W}
    (stands : s.acting thread = some frame) (notDeliver : ∀ reply, frame ≠ .deliver reply)
    (waits : ∀ sight : Sight, sight.me = thread → sight.isDone = s.isDone →
      frame.step client sight choice s.shared = none) : s.step client thread choice = none := by
  by_contra some
  obtain ⟨s', taken⟩ := Option.ne_none_iff_exists'.1 some
  obtain ⟨acted⟩ := step_cases taken
  have move := acted.move
  rw [acted.top_of_acting stands notDeliver] at move
  exact absurd move.step_of_single (by rw [waits _ rfl rfl]; exact (Option.some_ne_none _).symm)

namespace Trace

/-- The threads with the first numbers are the workers, and there are no others. -/
theorem staff (trace : Trace client (State.start workers world kept threads) history s) :
    ∃ others, s.threads.map Thread.worker =
      List.replicate workers true ++ List.replicate others false := by
  refine trace.keeps (fun _ s => ∃ others, s.threads.map Thread.worker =
    List.replicate workers true ++ List.replicate others false) ?_ ?_
  · refine ⟨threads.length, ?_⟩
    rw [State.start, List.map_append, List.map_replicate, List.map_map]
    exact congrArg _ (List.map_const' ..)
  · rintro before e moment ⟨others, ih⟩
    obtain ⟨acted⟩ := step_cases moment.taken
    refine ⟨others + acted.progress.spawned.length, ?_⟩
    rw [acted.staff, ih, List.append_assoc, List.replicate_add]

theorem isWorker_iff (trace : Trace client (State.start workers world kept threads) history s)
    {thread : ThreadId} : s.isWorker thread = true ↔ thread < workers := by
  obtain ⟨others, staff⟩ := trace.staff
  have own : s.isWorker thread = (s.threads.map Thread.worker)[thread]?.getD false := by
    rw [List.getElem?_map, isWorker]
    cases s.threads[thread]? <;> rfl
  rw [own, staff]
  by_cases first : thread < workers
  · simp [List.getElem?_append_left, first]
  · rw [List.getElem?_append_right (by simpa using first), List.getElem?_replicate]
    simp only [first, iff_false]
    split <;> simp

theorem lt_length_of_lt
    (trace : Trace client (State.start workers world kept threads) history s)
    {worker : ThreadId} (bound : worker < workers) : worker < s.threads.length := by
  obtain ⟨others, staff⟩ := trace.staff
  have length := congrArg List.length staff
  simp only [List.length_map, List.length_append, List.length_replicate] at length
  exact Nat.lt_of_lt_of_le bound (by omega)

theorem count_workers (trace : Trace client (State.start workers world kept threads) history s) :
    s.threads.countP Thread.worker = workers := by
  obtain ⟨others, staff⟩ := trace.staff
  have count : (s.threads.map Thread.worker).countP id = s.threads.countP Thread.worker := by
    rw [List.countP_map]
    rfl
  rw [← count, staff, List.countP_append]
  simp [List.countP_replicate]

end Trace

end State
end Strands
