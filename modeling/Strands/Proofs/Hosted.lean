/-
Managed code on top of what a thread has left to do.

Code is `Hosted` on the rest of a stack while it runs, and while something runs that it has
asked for.  A step of its thread leaves it hosted (`State.hosted_step`), or is its end, which
depends on nothing but what it ended with (`State.ending_step`).  Whatever it does, the rest of
the stack stays.

`State.Log.own_induction` follows one thread through a run: what a thread has left to do is
changed by its own steps only.
-/
import Strands.Proofs.CallEnding
import Strands.Proofs.Vouched

namespace Strands

variable {W : Type}

/-- Managed code that began as `first`, or something that it has asked for, has the thread.  If
it has come to its end, it is known with what. -/
inductive Hosted (role : Role W) (first : Code W) (rest : List (Frame W)) :
    Option (Except Panic Outcome) → List (Frame W) → Prop
  | runs {code : Code W} : first.Leads code →
      Hosted role first rest code.result? (.running role code :: rest)
  | waits {next : Reply → Code W} (above : List (Frame W)) :
      (∀ reply, first.Leads (next reply)) →
      Hosted role first rest none (above ++ .waiting role next :: rest)

theorem Frame.step_ending {client : Client W} {sight : Sight} {choice : Choice} {s : Shared W}
    {role : Role W} {result : Except Panic Outcome} :
    (Frame.running role (Code.ending result)).step client sight choice s =
      some (role.ended client s result) := by
  cases result <;> rfl

namespace Hosted

variable {role : Role W} {first : Code W} {rest stack : List (Frame W)}
  {ended : Option (Except Panic Outcome)}

theorem begins : Hosted role first rest first.result? (.running role first :: rest) :=
  .runs Relation.ReflTransGen.refl

theorem exists_cons (hosted : Hosted role first rest ended stack) :
    ∃ frame below, stack = frame :: below := by
  cases hosted with
  | runs => exact ⟨_, _, rfl⟩
  | waits above => exact List.exists_cons_of_ne_nil (by simp)

/-- The code runs one frame above the rest at least. -/
theorem suffix (hosted : Hosted role first rest ended stack) :
    rest <:+ stack ∧ rest.length < stack.length := by
  cases hosted with
  | runs => exact ⟨List.suffix_cons _ _, Nat.lt_succ_self _⟩
  | waits above =>
    refine ⟨(List.suffix_cons _ _).trans (List.suffix_append _ _), ?_⟩
    rw [List.length_append, List.length_cons]
    omega

theorem ending {result : Except Panic Outcome}
    (hosted : Hosted role first rest (some result) stack) :
    first.CanEnd result ∧ stack = .running role (Code.ending result) :: rest := by
  generalize eq : some result = ended at hosted
  cases hosted with
  | runs leads =>
    obtain rfl := Code.eq_ending_of_result? eq.symm
    exact ⟨leads, rfl⟩
  | waits above => cases eq

end Hosted

namespace State

variable {client : Client W} {s s' : State W} {thread : ThreadId} {choice : Choice}
  {role : Role W} {first : Code W} {rest : List (Frame W)}

/-- Code that has not ended stays hosted. -/
theorem hosted_step (hosted : Hosted role first rest none (s.stackOf thread))
    (taken : s.step client thread choice = some s') :
    ∃ ended, Hosted role first rest ended (s'.stackOf thread) := by
  generalize stack : s.stackOf thread = frames at hosted
  generalize unended : none = ended at hosted
  cases hosted with
  | runs leads =>
    obtain ⟨worker, p, moved, _, after⟩ := own_step stack (by rintro reply ⟨⟩) taken
    rw [after]
    rcases Code.step_goes moved unended.symm with
      ⟨code', frames, goes⟩ | ⟨above, next, frames, goes⟩
    · rw [frames]
      exact ⟨_, .runs (leads.next goes)⟩
    · rw [frames, List.append_assoc]
      exact ⟨_, .waits above fun reply => leads.next (goes reply)⟩
  | waits above leads =>
    cases above with
    | nil =>
      obtain ⟨worker, p, moved, _⟩ := own_step stack (by rintro reply ⟨⟩) taken
      cases moved
    | cons top above =>
      rcases step_above (by rintro reply ⟨⟩) (by rintro held ⟨⟩) stack (by simp) taken with
        ⟨above', after⟩ | ⟨reply, role, next, ⟨rfl, rfl⟩, after⟩
      · rw [after]
        exact ⟨_, .waits above' leads⟩
      · rw [after]
        exact ⟨_, .runs (leads reply)⟩

/-- The end of hosted code. -/
theorem ending_step {result : Except Panic Outcome}
    (hosted : Hosted role first rest (some result) (s.stackOf thread))
    (taken : s.step client thread choice = some s') :
    s'.shared = (role.ended client s.shared result).shared ∧
      s'.stackOf thread = (role.ended client s.shared result).frames ++ rest := by
  obtain ⟨_, stack⟩ := hosted.ending
  obtain ⟨worker, p, moved, shared, after⟩ := own_step stack (by rintro reply ⟨⟩) taken
  rw [Frame.step_ending] at moved
  cases moved
  exact ⟨shared, after⟩

variable (client choice) in
/-- Code that has come to its end can end. -/
theorem can_end {result : Except Panic Outcome}
    (hosted : Hosted role first rest (some result) (s.stackOf thread)) :
    ∃ s', s.step client thread choice = some s' :=
  exists_step hosted.ending.2 (by rintro reply ⟨⟩) fun _ => ⟨_, Frame.step_ending⟩

/-- What lies below a frame that neither waits nor is held stays until it is the innermost. -/
theorem step_over {above below : List (Frame W)} {base : Frame W}
    (notHeld : ∀ held, base ≠ .letGo held) (notWaiting : ∀ role next, base ≠ .waiting role next)
    (stack : s.stackOf thread = above ++ base :: below) (covered : above ≠ [])
    (taken : s.step client thread choice = some s') :
    ∃ above', s'.stackOf thread = above' ++ base :: below := by
  obtain ⟨acted⟩ := step_cases taken
  have whole := stack.symm.trans acted.stackOf_eq
  have after := acted.stackOf_eq'
  have move := acted.move
  generalize acted.progress = p at move after
  generalize acted.top = top at move whole
  generalize acted.below = beneath at whole after
  obtain ⟨first, above, rfl⟩ := List.exists_cons_of_ne_nil covered
  rw [after]
  cases move with
  | act moved =>
    cases whole
    exact ⟨p.frames ++ above, (List.append_assoc _ _ _).symm⟩
  | receive reply role next =>
    cases above with
    | nil => cases whole; exact absurd rfl (notWaiting role next)
    | cons second above =>
      cases whole
      exact ⟨.running role (next reply) :: above, rfl⟩
  | pass reply held =>
    cases above with
    | nil => cases whole; exact absurd rfl (notHeld held)
    | cons second above =>
      cases whole
      exact ⟨.deliver reply :: above, rfl⟩

theorem step_unreplied {above below : List (Frame W)} {next : Reply → Code W}
    (stack : s.stackOf thread = above ++ .waiting role next :: below)
    (unreplied : ∀ reply, s.stackOf thread ≠ .deliver reply :: .waiting role next :: below)
    (taken : s.step client thread choice = some s') :
    ∃ above', s'.stackOf thread = above' ++ .waiting role next :: below := by
  obtain ⟨acted⟩ := step_cases taken
  rcases acted.move.splits (by rintro reply ⟨⟩) (by rintro held ⟨⟩)
      (stack.symm.trans acted.stackOf_eq) with
    ⟨above', _, rest⟩ | ⟨reply, _, _, rfl, _⟩ | ⟨_, _, _, moved⟩
  · refine ⟨acted.progress.frames ++ above', ?_⟩
    rw [acted.stackOf_eq', rest, List.append_assoc]
  · exact absurd stack (unreplied reply)
  · cases moved

/-! ## What a step touches -/

/-- A step of a thread leaves this of what is shared, and all other threads as they are. -/
def Leaves (s s' : State W) (thread : ThreadId) (shared : Shared W) : Prop :=
  s'.shared = shared ∧ ∀ other, other ≠ thread → s'.threads[other]? = s.threads[other]?

abbrev Untouched (s s' : State W) (thread : ThreadId) : Prop := s.Leaves s' thread s.shared

/-- A frame that starts no thread touches what is shared at most. -/
theorem leaves_of_frame {frame : Frame W} {frames below : List (Frame W)} {shared : Shared W}
    (stack : s.stackOf thread = frame :: below) (notReply : ∀ reply, frame ≠ .deliver reply)
    (moves : ∀ sight, frame.step client sight choice s.shared = some { shared, frames })
    (taken : s.step client thread choice = some s') :
    s'.stackOf thread = frames ++ below ∧ s.Leaves s' thread shared := by
  obtain ⟨t, found, eq⟩ := exists_of_stackOf stack
  have step := step_of_frame found eq notReply (moves (s.sight thread t.worker))
  rw [taken] at step
  obtain rfl := Option.some.inj step
  refine ⟨?_, rfl, fun other different => ?_⟩
  · simp [stackOf, advance, found]
  · simp [advance, Ne.symm different]

/-- A reply passes what was held on to. -/
theorem leaves_of_pass {reply : Reply} {held : Holding} {below : List (Frame W)}
    (stack : s.stackOf thread = .deliver reply :: .letGo held :: below)
    (taken : s.step client thread choice = some s') :
    s'.stackOf thread = .deliver reply :: below ∧ s.Untouched s' thread := by
  obtain ⟨t, found, eq⟩ := exists_of_stackOf stack
  have passed : s.step client thread choice =
      some (s.advance thread { shared := s.shared, frames := .deliver reply :: below }) := by
    simp only [step, found, eq, stackStep, Option.map_some]
  rw [taken] at passed
  obtain rfl := Option.some.inj passed
  refine ⟨?_, rfl, fun other different => ?_⟩
  · simp [stackOf, advance, found]
  · simp [advance, Ne.symm different]

/-! ## One thread in a run -/

/-- What holds of the stack of a thread, and of the run until then, is what each step of that
thread preserves. -/
theorem Log.own_induction {s₀ : State W} {log : List (Beat W)} (run : Log client s₀ log s)
    {Good : State W → Prop} {P : List (Beat W) → List (Frame W) → Prop}
    (good : ∀ beat ∈ log, beat.thread = thread → Good beat.s) (begins : P [] (s₀.stackOf thread))
    (nonempty : ∀ {log stack}, P log stack → stack ≠ [])
    (others : ∀ {log stack} {beat : Beat W}, beat.thread ≠ thread → P log stack →
      P (log ++ [beat]) stack)
    (steps : ∀ {log s s' choice}, P log (s.stackOf thread) → Good s →
      s.step client thread choice = some s' → P (log ++ [⟨s, thread⟩]) (s'.stackOf thread)) :
    P log (s.stackOf thread) := by
  induction run with
  | start => exact begins
  | @step log s s' actor choice run taken ih =>
    have earlier := ih fun beat mem => good beat (List.mem_append_left _ mem)
    by_cases own : actor = thread
    · subst own
      exact steps earlier (good ⟨s, actor⟩ (by simp) rfl) taken
    · obtain ⟨acted⟩ := step_cases taken
      obtain ⟨frame, rest, stack⟩ := List.exists_cons_of_ne_nil (nonempty earlier)
      rw [acted.stackOf_other (Ne.symm own) stack, ← stack]
      exact others own earlier

end State
end Strands
