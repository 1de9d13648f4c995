/-
What a call does once its receiver is not asked any more.

From then on the thread of a call runs errands: it completes a future, asks for an argument,
places a unit, gives back what was held for the call and lets go of the rest.  An errand
leaves errands only, and fewer than it stood for, unless it completes a future, which
notifies a callback first (`Frame.step_errand`).  And it can be run at any time, unless it is
to ring a bell that somebody has locked (`Frame.errand_can`).
-/
import Strands.Proofs.Turns

namespace Strands

variable {W : Type}

namespace Frame

def isErrand : Frame W → Bool
  | claim p | enter p => !p.asker.isClient
  | push _ asker | checkOpen _ _ asker | locate _ _ asker | append _ _ _ asker
  | submit _ asker => !asker.isClient
  | evaluate r => !r.pending.isEmpty
  | ring | settle _ _ | discard _ | leave | dropHandle | letGo _ => true
  | _ => false

def errandLength : Frame W → Nat
  | evaluate _ => 11
  | claim _ => 8
  | enter _ => 7
  | checkOpen _ _ _ => 6
  | locate _ _ _ => 5
  | append _ _ _ _ => 4
  | push _ _ | submit _ _ | settle _ _ => 2
  | _ => 1

end Frame

def Errands (frames : List (Frame W)) : Prop := ∀ frame ∈ frames, frame.isErrand = true

@[simp] theorem errands_nil : Errands ([] : List (Frame W)) := fun _ mem => by cases mem

@[simp] theorem errands_cons {frame : Frame W} {frames : List (Frame W)} :
    Errands (frame :: frames) ↔ frame.isErrand = true ∧ Errands frames := List.forall_mem_cons

@[simp] theorem errands_append {a b : List (Frame W)} :
    Errands (a ++ b) ↔ Errands a ∧ Errands b := List.forall_mem_append

section Steps

variable {client : Client W} {sight : Sight} {choice : Choice} {s : Shared W} {frame : Frame W}
  {p : Progress W}

attribute [local simp] Frame.isErrand Frame.errandLength Asker.isClient Asker.answer Job.refuse

/-- An errand comes down to shorter ones, or it completes a future. -/
theorem Frame.step_errand (isOpen : s.queue.closed = false)
    (kept : frame = .dropHandle → s.handles ≠ 1) (errand : frame.isErrand = true)
    (taken : frame.step client sight choice s = some p) :
    (Errands p.frames ∧ weigh Frame.errandLength p.frames < frame.errandLength) ∨
      ∃ f outcome callback, frame = .settle f outcome ∧ p.frames = callback ++ [.announce f] := by
  have nobody {asker : Asker} (waits : (!asker.isClient) = true) : asker = .nobody := by
    cases asker with
    | client f => cases waits
    | nobody => rfl
  cases frame with
  | claim placing =>
    have waits := nobody errand
    cases taken
    refine .inl ?_
    simp only [claimStep]
    split <;> simp [waits]
  | enter placing =>
    have waits := nobody errand
    cases taken
    refine .inl ?_
    simp only [enterStep]
    split <;> simp [waits]
  | push job asker =>
    obtain rfl := nobody errand
    cases taken
    exact .inl (by simp [pushStep, RunQueue.push, isOpen])
  | checkOpen receiver job asker =>
    obtain rfl := nobody errand
    cases taken
    exact .inl (by simp [checkOpenStep, isOpen])
  | locate receiver job asker =>
    obtain rfl := nobody errand
    cases taken
    exact .inl (by simp [locateStep])
  | append receiver group job asker =>
    obtain rfl := nobody errand
    cases taken
    refine .inl ?_
    simp only [appendStep]
    split
    · dsimp only
      split <;> simp
    · simp
  | submit group asker =>
    obtain rfl := nobody errand
    cases taken
    exact .inl (by simp [submitStep, RunQueue.push, isOpen])
  | evaluate r =>
    cases pending : r.pending with
    | nil => simp [pending] at errand
    | cons omitted others =>
      cases taken
      exact .inl (by simp [evaluateStep, pending])
  | settle f outcome =>
    cases taken
    simp only [settleStep]
    split
    · exact .inr ⟨f, outcome, _, rfl, rfl⟩
    · exact .inl (by simp)
  | dropHandle =>
    cases taken
    exact .inl (by simp [dropHandleStep, kept rfl])
  | ring =>
    simp only [step, ringStep] at taken
    split at taken <;> cases taken
    exact .inl (by simp)
  | discard job | leave | letGo held => cases taken; exact .inl (by simp [leaveStep])
  | _ => cases errand

variable (client sight choice) in
/-- An errand can be run at any time, but ringing a bell while that is locked. -/
theorem Frame.errand_can (errand : frame.isErrand = true)
    (free : frame = .ring → s.bell.owner = none) :
    ∃ p, frame.step client sight choice s = some p := by
  cases frame with
  | ring =>
    refine ⟨{ shared := { s with bell := s.bell.ringOne choice.pick } }, ?_⟩
    simp only [step, ringStep, free rfl]
  | claim placing | enter placing | push job asker | checkOpen receiver job asker
  | locate receiver job asker | append receiver group job asker | submit group asker
  | evaluate r | settle f outcome | dropHandle | discard job | leave | letGo held =>
    exact ⟨_, rfl⟩
  | _ => cases errand

end Steps

/-- A frame that can act lets its thread act. -/
theorem State.exists_step {client : Client W} {s : State W} {thread : ThreadId} {choice : Choice}
    {frame : Frame W} {below : List (Frame W)} (stack : s.stackOf thread = frame :: below)
    (notReply : ∀ reply, frame ≠ .deliver reply)
    (can : ∀ sight, ∃ p, frame.step client sight choice s.shared = some p) :
    ∃ s', s.step client thread choice = some s' := by
  obtain ⟨t, found, eq⟩ := exists_of_stackOf stack
  obtain ⟨p, moves⟩ := can (s.sight thread t.worker)
  exact ⟨_, step_of_frame found eq notReply moves⟩

end Strands
