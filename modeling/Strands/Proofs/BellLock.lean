/-
Who has locked the bell.

A worker locks the bell before it rests, and looks at the queue and the flag once more.
Meanwhile whoever wants to ring waits.  It does not wait in vain: the thread that has locked
the bell is at one of these looks (`Trace.tended`), and each of them can be taken at any time
(`Trace.keeper_goes`).
-/
import Strands.Proofs.Turns

namespace Strands

variable {W : Type}

namespace Frame

def keepsBell : Frame W → Bool
  | recheckQueue | recheckFlag | settleDown => true
  | _ => false

def movesBell : Frame W → Bool
  | ring | ringAll | lockBell | recheckQueue | recheckFlag | settleDown | rest | getUp => true
  | _ => false

end Frame

section Steps

variable {client : Client W} {sight : Sight} {choice : Choice} {s : Shared W} {frame : Frame W}
  {p : Progress W}

/-- Most frames leave the bell alone. -/
theorem Frame.bell_step (aside : frame.movesBell = false)
    (taken : frame.step client sight choice s = some p) : p.shared.bell = s.bell := by
  cases frame with
  | running role code => rw [Code.step_shared taken]
  | letGo held | checkFlag | raiseFlag | takeHandlers shutsDown => cases taken; rfl
  | lockCrew =>
    simp only [step, lockCrewStep] at taken
    split at taken <;> cases taken
    rfl
  | join workers =>
    cases workers with
    | nil => cases taken; rfl
    | cons first others =>
      simp only [step, joinStep] at taken
      split at taken <;> cases taken
      rfl
  | awaitFuture f | awaitFutureAtMost f milliseconds =>
    simp only [step, awaitFutureStep] at taken
    split at taken
    · cases taken
      rfl
    · split at taken <;> cases taken
      rfl
  | ring | ringAll | lockBell | recheckQueue | recheckFlag | settleDown | rest | getUp =>
    cases aside
  | _ => exact (Frame.step_steady rfl (fun _ _ eq => by cases eq) (fun _ eq => by cases eq) taken).bell

/-- A step gives the bell up, or leaves it to whoever has locked it, or locks it. -/
theorem Frame.owner_step (taken : frame.step client sight choice s = some p) :
    p.shared.bell.owner = none ∨
    (p.shared.bell.owner = s.bell.owner ∧ frame.keepsBell = false) ∨
    (p.shared.bell.owner = s.bell.owner ∨ p.shared.bell.owner = some sight.me) ∧
      ∃ next rest, p.frames = next :: rest ∧ next.keepsBell = true := by
  by_cases moves : frame.movesBell = true
  · cases frame with
    | ring | ringAll =>
      simp only [step, ringStep] at taken
      split at taken <;> cases taken
      exact .inr (.inl ⟨rfl, rfl⟩)
    | lockBell =>
      simp only [step, lockBellStep] at taken
      split at taken <;> cases taken
      exact .inr (.inr ⟨.inr rfl, _, _, rfl, rfl⟩)
    | recheckQueue =>
      cases taken
      simp only [recheckQueueStep]
      split
      · exact .inr (.inr ⟨.inl rfl, _, _, rfl, rfl⟩)
      · exact .inl rfl
    | recheckFlag =>
      cases taken
      simp only [recheckFlagStep]
      split
      · exact .inl rfl
      · exact .inr (.inr ⟨.inl rfl, _, _, rfl, rfl⟩)
    | settleDown =>
      cases taken
      simp only [settleDownStep]
      split <;> exact .inl rfl
    | rest =>
      simp only [step, restStep] at taken
      split at taken
      · split at taken <;> cases taken
        exact .inr (.inl ⟨rfl, rfl⟩)
      · cases taken
        exact .inr (.inl ⟨rfl, rfl⟩)
    | getUp =>
      simp only [step, getUpStep] at taken
      split at taken <;> cases taken
      exact .inl rfl
    | _ => cases moves
  · have aside : frame.movesBell = false := by simpa using moves
    refine .inr (.inl ⟨by rw [Frame.bell_step aside taken], ?_⟩)
    cases frame <;> first | rfl | cases aside

variable (client sight choice s) in
theorem Frame.step_of_keepsBell (keeps : frame.keepsBell = true) :
    ∃ p, frame.step client sight choice s = some p := by
  cases frame with
  | recheckQueue | recheckFlag | settleDown => exact ⟨_, rfl⟩
  | _ => cases keeps

end Steps

namespace State

/-- Whoever has locked the bell is at one of the looks that are taken then. -/
def Tended (s : State W) : Prop :=
  ∀ thread, s.shared.bell.owner = some thread →
    ∃ frame, s.acting thread = some frame ∧ frame.keepsBell = true

variable {client : Client W} {s s' : State W}

theorem Tended.step {thread : ThreadId} {choice : Choice} (tended : s.Tended)
    (acted : Acted client s s' thread choice) : s'.Tended := by
  intro k owner
  have shared := acted.shared'
  have acting := acted.acting
  have acting' := acted.acting'
  have move := acted.move
  rw [shared] at owner
  generalize acted.progress = p at owner acting' move
  generalize acted.top = top at acting move
  -- Unless the owner acts, it stays where it is.
  have aside (mine : s.shared.bell.owner = some k)
      (aloof : ∀ frame, s.acting thread = some frame → frame.keepsBell = false ∨ ∃ next rest,
        p.frames = next :: rest ∧ next.keepsBell = true) :
      ∃ frame, s'.acting k = some frame ∧ frame.keepsBell = true := by
    obtain ⟨frame, stands, keeps⟩ := tended k mine
    by_cases own : k = thread
    · subst own
      rcases aloof frame stands with not | ⟨next, rest, frames, keeps'⟩
      · rw [keeps] at not
        cases not
      · exact ⟨next, by rw [acting', frames]; rfl, keeps'⟩
    · exact ⟨frame, acted.acting_stays own stands, keeps⟩
  cases move with
  | receive reply role next =>
    refine aside (by cases reply <;> exact owner) fun frame stands => .inl ?_
    cases acting.symm.trans stands
    rfl
  | pass reply held =>
    refine aside owner fun frame stands => .inl ?_
    cases acting.symm.trans stands
    rfl
  | @act frame p moved =>
    rcases Frame.owner_step moved with none | ⟨same, not⟩ | ⟨same | mine, next, rest, frames, keeps⟩
    · rw [none] at owner
      cases owner
    · refine aside (same ▸ owner) fun frame' stands => .inl ?_
      cases acting.symm.trans stands
      exact not
    · exact aside (same ▸ owner) fun _ _ => .inr ⟨next, rest, frames, keeps⟩
    · rw [mine] at owner
      cases owner
      refine ⟨next, acting'.trans ?_, keeps⟩
      rw [frames]
      rfl

section

variable {workers : Nat} {world : W} {kept : List ObjectId} {threads : List (Code W)}
  {history : List Event} (trace : Trace client (State.start workers world kept threads) history s)

include trace

theorem Trace.tended : s.Tended := by
  refine trace.keeps (fun _ s => s.Tended) (fun thread owner => by cases owner) ?_
  intro before e moment ih
  obtain ⟨acted⟩ := step_cases moment.taken
  exact ih.step acted

theorem Trace.keeper_goes (choice : Choice) {thread : ThreadId}
    (owner : s.shared.bell.owner = some thread) : ∃ s', s.step client thread choice = some s' := by
  obtain ⟨frame, stands, keeps⟩ := trace.tended thread owner
  obtain ⟨t, below, found, stack⟩ := exists_of_acting stands
  obtain ⟨p, taken⟩ :=
    Frame.step_of_keepsBell client (s.sight thread t.worker) choice s.shared keeps
  exact ⟨_, step_of_frame found stack (by rintro reply rfl; cases keeps) taken⟩

end

end State
end Strands
