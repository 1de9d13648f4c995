/-
Units run where they were bound to be placed.

A unit that waits on the run queue by itself was bound to the free lane, `Log.bound_of_line`,
as one that waits on a receiver's lane was bound to that lane.  So a unit begins to run as a
free job or in a turn of its receiver's group, as it was bound: `Log.runs_where_bound`.
-/
import Strands.Proofs.RunQueueSteps
import Strands.Proofs.Sequential

namespace Strands

variable {W : Type}

def Placement.Begins (place : Placement) (f : FutureId) (e : Event) : Prop :=
  match place with
  | .free => e = .started f
  | .group r => ∃ group, e = .turned r group f

namespace State

variable {client : Client W} {workers : Nat} {world : W} {kept : List ObjectId}
  {threads : List (Code W)} {s : State W} {log : List (Beat W)}

section

variable (run : Log client (State.start workers world kept threads) log s)

include run

/-- What waits on the free lane was bound to it. -/
theorem Log.bound_of_line :
    ∀ f ∈ s.shared.line, ∃ p, .bound p ∈ deeds client log ∧ p.future = f ∧ p.place = .free := by
  induction run with
  | start => exact fun f mem => by cases mem
  | @step log s s' thread choice run taken ih =>
    intro f mem
    obtain ⟨acted⟩ := step_cases taken
    rw [deeds_append]
    have lasts (earlier : f ∈ s.shared.line) : ∃ p,
        .bound p ∈ deeds client log ++ deeds client [⟨s, thread⟩] ∧ p.future = f ∧
          p.place = .free := by
      obtain ⟨p, bound, own, place⟩ := ih f earlier
      exact ⟨p, List.mem_append_left _ bound, own, place⟩
    rw [acted.shared'] at mem
    cases acted.move.feeds with
    | keep queue none | send group asker g none queue =>
      refine lasts ?_
      rwa [Shared.line, queue] at mem
    | push job asker top pushed none =>
      rw [Shared.line_push (RunQueue.items_of_push pushed), List.mem_append,
        List.mem_singleton] at mem
      rcases mem with earlier | rfl
      · exact lasts earlier
      · have sent := run.vouched.frames acted.actor acted.actor_mem (.push job asker) (by
          rw [acted.stack, top]
          simp)
        exact ⟨_, List.mem_append_left _ sent, rfl, rfl⟩
    | submit group asker top pushed none =>
      rw [Shared.line_submit (RunQueue.items_of_push pushed)] at mem
      exact lasts mem
    | start job top popped none =>
      refine lasts ?_
      rw [Shared.line_job (RunQueue.items_of_pop popped)]
      exact List.mem_cons_of_mem _ mem
    | fetch group top popped frames =>
      refine lasts ?_
      rwa [Shared.line_group (RunQueue.items_of_pop popped)]
    | close top queue none =>
      rw [Shared.line, queue] at mem
      cases mem

theorem Log.bound_of_started {f : FutureId} (started : .started f ∈ events client log) :
    ∃ p, .bound p ∈ deeds client log ∧ p.future = f ∧ p.place = .free := by
  obtain ⟨beat, inLog, event⟩ := List.mem_map.1 started
  obtain ⟨before, after, rfl⟩ := List.append_of_mem inLog
  obtain ⟨earlier, choice, s', taken, _⟩ := run.split
  have lines := step_lines taken
  rw [show beat.s.event client beat.thread = .started f from event] at lines
  obtain ⟨p, bound, own, place⟩ := earlier.bound_of_line f (by
    rw [show beat.s.shared.line = _ from lines]
    exact List.mem_cons_self)
  exact ⟨p, mem_deeds_left bound _, own, place⟩

/-- A unit begins to run where it was bound to be placed. -/
theorem Log.runs_where_bound {p : Placing W} (bound : .bound p ∈ deeds client log) {e : Event}
    (mem : e ∈ events client log) (runs : 0 < e.runs p.future) : p.place.Begins p.future e := by
  cases e with
  | started g =>
    obtain rfl : g = p.future := one_pos runs
    obtain ⟨q, bound', own, place⟩ := run.bound_of_started mem
    rw [run.bound_unique bound bound' own.symm, place, own]
    exact rfl
  | turned r group g =>
    obtain rfl : g = p.future := one_pos runs
    have onLane := (run.trace.starts_sublist r).subset (mem_starts mem)
    obtain ⟨q, bound', own, place⟩ := run.bound_of_appends onLane
    rw [run.bound_unique bound bound' own.symm, place, own]
    exact ⟨group, rfl⟩
  | _ => cases runs

end
end State
end Strands
