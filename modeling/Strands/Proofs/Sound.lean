/-
What events tell.

An event is brought about by a frame, and that the frame may stand where it does tells
something of what went before: `Event.Sound`.  `Trace.sound` finds, for an event of a
history, the stack of the thread that acted.
-/
import Strands.Proofs.Place

namespace Strands

variable {W : Type}

def Event.Sound (s : Shared W) (history : List Event) (frame : Frame W)
    (below : List (Frame W)) : Event → Prop
  | claimed _ _ behalf | opened _ _ behalf => behalf = context below
  | counted f byClient => ∃ behalf, .claimed f byClient behalf ∈ history
  | answered f result => result = .ok () ∨ result = .error .shutDown → .counted f true ∈ history
  | notified f outcome _ => Origin history f outcome below
  | drained _ _ => ∃ futures, .closed futures ∈ history
  | closed _ => .shutdown true ∈ history ∨ .idle ∈ history
  | idle => ∃ worker, .shutdown worker ∈ history
  | argument _ call => ∀ f, call = some f → .call f ∈ frame.stakes
  | appended receiver group f _ =>
    ∃ job asker, frame = .append receiver group job asker ∧ job.future = f
  | stranded _ =>
    ∃ receiver group job asker, frame = .append receiver group job asker ∧
      s.groups[group]? = none
  | turned _ group _ => frame = .turn group
  | shutdown _ => .shutdownAsked ∈ history ∨ .handleDropped true ∈ history
  | _ => True

section Soundness

variable {client : Client W} {worker : Bool} {s : Shared W} {history : List Event}
  {frame : Frame W} {below : List (Frame W)}

theorem Event.sound_of_isManaged {e : Event} (managed : e.isManaged = true) :
    e.Sound s history frame below := by
  cases e <;> trivial

theorem Frame.Has.sound {e : Event} (has : frame.Has worker s below e)
    (grounded : frame.Grounded history below) : e.Sound s history frame below := by
  cases has with
  | managed managed | placed managed _ => exact Event.sound_of_isManaged managed
  | answered => exact grounded
  | claimed | opened => rfl
  | counted =>
    obtain ⟨_, behalf, mem, _⟩ := grounded
    exact ⟨behalf, mem⟩
  | appended => exact ⟨_, _, rfl, rfl⟩
  | stranded none => exact ⟨_, _, _, _, rfl, none⟩
  | drained | shutdown | idle | closed => exact grounded
  | notified => exact grounded.1
  | argument =>
    intro f call
    simp [Next.stakes, call]
  | turned => rfl
  | _ => trivial

theorem Move.event_sound (worker : Bool) {sight : Sight} {choice : Choice} {top : List (Frame W)}
    {p : Progress W} (move : Move client sight choice s top p)
    (grounded : Stacked (Frame.Grounded history) (top ++ below)) :
    ∃ above frame, top = frame :: above ∧
      (Move.event client worker s below top).Sound s history frame (above ++ below) := by
  obtain ⟨frame, above, rfl, has⟩ := move.has_event worker below
  exact ⟨above, frame, rfl, has.sound grounded.1⟩

end Soundness

namespace State

variable {client : Client W} {workers : Nat} {world : W} {kept : List ObjectId}
  {threads : List (Code W)} {s : State W} {before after : List Event} {e : Event}

theorem Moment.sound (moment : Moment client (State.start workers world kept threads) before e) :
    ∃ (frame : Frame W) (place : Place before moment.s frame), e.Sound moment.s.shared before frame place.below := by
  obtain ⟨s, s', thread, choice, trace, taken, rfl⟩ := moment
  obtain ⟨acted⟩ := step_cases taken
  have mem : acted.actor ∈ s.threads := by
    rw [acted.threads]
    simp
  have stacked := trace.grounded acted.actor mem
  rw [acted.stack] at stacked
  obtain ⟨above, frame, eq, sound⟩ := acted.move.event_sound acted.actor.worker stacked
  rw [← acted.event] at sound
  rw [eq] at stacked
  refine ⟨frame, ⟨acted.actor, [], above ++ acted.below, mem, ?_, stacked.1, stacked.2⟩, sound⟩
  rw [acted.stack, eq]
  rfl

theorem Trace.sound (trace : Trace client (State.start workers world kept threads)
    (before ++ e :: after) s) :
    ∃ (moment : Moment client (State.start workers world kept threads) before e)
      (frame : Frame W) (place : Place before moment.s frame), e.Sound moment.s.shared before frame place.below := by
  obtain ⟨moment⟩ := trace.split
  exact ⟨moment, moment.sound⟩

end State
end Strands
