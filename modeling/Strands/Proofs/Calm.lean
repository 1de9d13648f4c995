/-
Steps that stir neither the run queue nor a future.

Most steps leave the run queue as it is, and leave frames that are `Calm`: none of them
is about to put a group on the queue, to run one, or to complete a future.
`Frame.step_of_not_stirs` says so once for all of them.  What is left are the frames that
`Frame.stirs` names, and those are looked at one by one where it matters what they do.
-/
import Strands.Proofs.Leads
import Strands.Proofs.Move

namespace Strands

variable {W : Type}

namespace Frame

def isCalm : Frame W → Bool
  | submit _ _ | turn _ | settle _ _ | announce _ => false
  | _ => true

def stirs : Frame W → Bool
  | running _ (.finish _) | running _ (.panic _) | push _ _ | checkOpen _ _ _ | append _ _ _ _
  | submit _ _ | drain _ | settle _ _ | openCall _ _ _ | poll | turn _ | endTurn _ | close => true
  | _ => false

end Frame

def Calm (frames : List (Frame W)) : Prop := ∀ frame ∈ frames, frame.isCalm = true

@[simp] theorem calm_nil : Calm ([] : List (Frame W)) := fun _ mem => by cases mem

@[simp] theorem calm_cons {frame : Frame W} {frames : List (Frame W)} :
    Calm (frame :: frames) ↔ frame.isCalm = true ∧ Calm frames := List.forall_mem_cons

/-! ## Frames that are calm -/

@[simp] theorem Asker.calm_answer (asker : Asker) (result : Except ScheduleError Unit) :
    Calm (asker.answer result : List (Frame W)) := by
  cases asker <;> simp [answer, Frame.isCalm]

@[simp] theorem Next.calm_placed (next : Next W) (direct : Bool) (args : List Value) :
    Calm (next.resume direct (.ok args)) := by
  cases next <;> simp [resume, Frame.isCalm]

@[simp] theorem Next.calm_takenUp (next : Next W) : Calm next.takenUp := by
  cases next <;> simp [takenUp, Frame.isCalm]

theorem Frame.stirs_of_isEnd {role : Role W} {code : Code W} (ends : code.isEnd = true) :
    (running role code).stirs = true := by
  cases code <;> first | rfl | cases ends

theorem Frame.stirs_of_refuses {frame : Frame W} (refuses : frame.refuses = true) :
    frame.stirs = true := by
  cases frame <;> first | rfl | cases refuses

theorem Frame.LeadsTo.isCalm {isOpen : Bool} {frame next : Frame W}
    (leads : frame.LeadsTo isOpen next) (quiet : frame.stirs = false) : next.isCalm = true := by
  cases leads with
  | @code role code _ leaves =>
    cases next with
    | settle f outcome => exact absurd (stirs_of_isEnd leaves) (by rw [quiet]; decide)
    | _ => first | rfl | cases leaves
  | refuse refuses => exact absurd (stirs_of_refuses refuses) (by rw [quiet]; decide)
  | _ => first | rfl | cases quiet

/-! ## Frames that do not stir -/

section Steps

variable {client : Client W} {s : Shared W}

theorem Shared.queue_locate (s : Shared W) (isAlive : ObjectId → Bool) (receiver : ObjectId) :
    (s.locate isAlive receiver).2.queue = s.queue := by
  unfold locate
  split <;> rfl

theorem Shared.queue_receive (s : Shared W) (reply : Reply) :
    (s.receive reply).queue = s.queue := by
  cases reply <;> rfl

/-- A frame that does not stir leaves the run queue alone, and calm frames. -/
theorem Frame.step_of_not_stirs {sight : Sight} {choice : Choice} {frame : Frame W}
    {p : Progress W} (quiet : frame.stirs = false)
    (taken : frame.step client sight choice s = some p) :
    p.shared.queue = s.queue ∧ Calm p.frames := by
  refine ⟨?_, fun next mem => (step_leads taken next mem).isCalm quiet⟩
  by_cases still : frame.lingers = true
  · rw [(step_of_lingers still taken).shared]
  cases frame with
  | running role code => rw [Code.step_shared taken]
  | waiting role next => cases taken
  | deliver reply => cases taken; exact s.queue_receive reply
  | claim p =>
    cases taken
    simp only [claimStep]
    split <;> rfl
  | locate receiver job asker => cases taken; exact s.queue_locate sight.isAlive receiver
  | evaluate r =>
    cases taken
    simp only [evaluateStep]
    split <;> rfl
  | awaitIdle =>
    simp only [step, awaitIdleStep] at taken
    split at taken <;> cases taken
    rfl
  | awaitListeners stopping =>
    simp only [step, awaitListenersStep] at taken
    split at taken
    · cases taken
      rfl
    · split at taken <;> cases taken
      rfl
  | enter p | dropHandle | shutdown | runHandlers stopping | askListeners stopping
  | query object site | track call lane | announce f | leave | discard job | takeHandlers shutsDown
  | readListeners stopping | openStop listener lane metadata stopping => cases taken; rfl
  | _ => first | exact absurd rfl still | cases quiet

end Steps
end Strands
