/-
What one thread does in a run of all.

`State.stackOf` is what a thread still has to do.  Only the thread itself gets any of it
done: while others act it stays.  `State.own_step` says what its own step leaves, and
`Move.splits` that it leaves alone whatever lies below the frame that acts.

`Hears` is said of a thread that a reply is on its way to: whatever other threads do
meanwhile, its own next steps can be taken, change nothing that is shared, and hand the
reply to the code that waits for it.
-/
import Strands.Proofs.Workers

namespace Strands

variable {W : Type}

/-- Of those who try the first succeeds, and every other is told that it comes late. -/
inductive FirstWins {α ε : Type} (late : ε) : List (α × Except ε Unit) → Prop
  | untried : FirstWins late []
  | won (first : α) (others : List (α × Except ε Unit)) :
      (∀ other ∈ others, other.2 = .error late) → FirstWins late ((first, .ok ()) :: others)

namespace FirstWins

variable {α ε : Type} {late : ε} {tries : List (α × Except ε Unit)}

/-- One more comes late. -/
theorem snoc (wins : FirstWins late tries) (tried : tries ≠ []) (other : α) :
    FirstWins late (tries ++ [(other, .error late)]) := by
  cases wins with
  | untried => exact absurd rfl tried
  | won first others losers =>
    refine .won first _ fun a mem => ?_
    rcases List.mem_append.1 mem with earlier | now
    · exact losers a earlier
    · rw [List.mem_singleton.1 now]

end FirstWins

def State.stackOf (s : State W) (thread : ThreadId) : List (Frame W) :=
  ((s.threads[thread]?).map Thread.stack).getD []

namespace State

theorem stackOf_of_found {s : State W} {thread : ThreadId} {t : Thread W}
    (found : s.threads[thread]? = some t) : s.stackOf thread = t.stack := by
  rw [stackOf, found]
  rfl

theorem exists_of_stackOf {s : State W} {thread : ThreadId} {frame : Frame W}
    {below : List (Frame W)} (stack : s.stackOf thread = frame :: below) :
    ∃ t, s.threads[thread]? = some t ∧ t.stack = frame :: below := by
  unfold stackOf at stack
  cases found : s.threads[thread]? with
  | none => rw [found] at stack; cases stack
  | some t =>
    rw [found] at stack
    exact ⟨t, rfl, stack⟩

theorem acting_of_stackOf {s : State W} {thread : ThreadId} {frame : Frame W}
    {below : List (Frame W)} (stack : s.stackOf thread = frame :: below) :
    s.acting thread = some frame := by
  obtain ⟨t, found, eq⟩ := exists_of_stackOf stack
  exact acting_eq found eq

theorem stackOf_of_acting {s : State W} {thread : ThreadId} {frame : Frame W}
    (stands : s.acting thread = some frame) :
    ∃ below, s.stackOf thread = frame :: below := by
  obtain ⟨t, below, found, stack⟩ := exists_of_acting stands
  exact ⟨below, (stackOf_of_found found).trans stack⟩

/-- What a thread has on its stack is held by the state. -/
theorem mem_stakes_of_stackOf {s : State W} {thread : ThreadId} {frame : Frame W}
    (inStack : frame ∈ s.stackOf thread) {stake : Stake} (held : stake ∈ frame.stakes) :
    stake ∈ s.stakes := by
  unfold stackOf at inStack
  cases found : s.threads[thread]? with
  | none => rw [found] at inStack; cases inStack
  | some t =>
    rw [found] at inStack
    exact stakes_of_mem (List.mem_of_getElem? found) inStack held

end State

/-! ## What lies below the frame that acts -/

/-- Where a stack is one frame deeper than what is below, nothing is above. -/
theorem eq_of_depth {above below rest : List (Frame W)} {base frame : Frame W}
    (eq : above ++ base :: below = frame :: rest) (deep : below.length = rest.length) :
    above = [] ∧ base = frame ∧ below = rest := by
  cases above with
  | nil =>
    cases eq
    exact ⟨rfl, rfl, rfl⟩
  | cons first above =>
    have lengths := congrArg List.length eq
    simp only [List.length_append, List.length_cons] at lengths
    omega

namespace Move

variable {client : Client W} {sight : Sight} {choice : Choice} {shared : Shared W}
  {top : List (Frame W)} {p : Progress W}

theorem length_pos (move : Move client sight choice shared top p) : 0 < top.length := by
  cases move <;> exact Nat.succ_pos _

/-- As long as a frame is on a stack, a move of the stack happens above it, or answers the
code that the frame runs, or is the frame's own step. -/
theorem splits {base : Frame W} (notReply : ∀ reply, base ≠ .deliver reply)
    (notHeld : ∀ held, base ≠ .letGo held) (move : Move client sight choice shared top p)
    {above below rest : List (Frame W)} (eq : above ++ base :: below = top ++ rest) :
    (∃ above', above = top ++ above' ∧ rest = above' ++ base :: below) ∨
    (∃ reply role next, above = [.deliver reply] ∧ base = .waiting role next ∧ rest = below ∧
      p.frames = [.running role (next reply)]) ∨
    above = [] ∧ top = [base] ∧ rest = below ∧ base.step client sight choice shared = some p := by
  cases above with
  | nil =>
    cases move with
    | receive reply role next | pass reply held =>
      cases eq
      exact absurd rfl (notReply reply)
    | act taken =>
      cases eq
      exact .inr (.inr ⟨rfl, rfl, rfl, taken⟩)
  | cons first above =>
    cases move with
    | act taken =>
      cases eq
      exact .inl ⟨above, rfl, rfl⟩
    | receive reply role next =>
      cases above with
      | nil =>
        cases eq
        exact .inr (.inl ⟨reply, role, next, rfl, rfl, rfl, rfl⟩)
      | cons second above =>
        cases eq
        exact .inl ⟨above, rfl, rfl⟩
    | pass reply held =>
      cases above with
      | nil =>
        cases eq
        exact absurd rfl (notHeld held)
      | cons second above =>
        cases eq
        exact .inl ⟨above, rfl, rfl⟩

end Move

/-! ## The thread that acts, and the others -/

namespace Acted

variable {client : Client W} {s s' : State W} {thread : ThreadId} {choice : Choice}
  (acted : Acted client s s' thread choice)

include acted

theorem stackOf_eq : s.stackOf thread = acted.top ++ acted.below :=
  (State.stackOf_of_found acted.actor_eq).trans acted.stack

theorem stackOf_eq' : s'.stackOf thread = acted.progress.frames ++ acted.below :=
  State.stackOf_of_found acted.actor_eq'

/-- A thread that has something to do keeps it while another one acts. -/
theorem stackOf_other {other : ThreadId} (different : other ≠ thread) {frame : Frame W}
    {below : List (Frame W)} (stack : s.stackOf other = frame :: below) :
    s'.stackOf other = frame :: below := by
  obtain ⟨t, found, eq⟩ := State.exists_of_stackOf stack
  rw [State.stackOf_of_found (acted.stays different found), eq]

/-- A frame stays on a stack until its own step, whichever threads act. -/
theorem base_cases {other : ThreadId} {base : Frame W} {above below : List (Frame W)}
    (notReply : ∀ reply, base ≠ .deliver reply) (notHeld : ∀ held, base ≠ .letGo held)
    (notWaiting : ∀ role next, base ≠ .waiting role next)
    (stack : s.stackOf other = above ++ base :: below) :
    (∃ above', s'.stackOf other = above' ++ base :: below) ∨
    (other = thread ∧ above = [] ∧ acted.top = [base] ∧ acted.below = below) := by
  by_cases own : other = thread
  · subst own
    rcases acted.move.splits notReply notHeld (stack.symm.trans acted.stackOf_eq) with
      ⟨above', _, rest⟩ | ⟨_, role, next, _, eq, _⟩ | ⟨rfl, top, rest, _⟩
    · refine .inl ⟨acted.progress.frames ++ above', ?_⟩
      rw [acted.stackOf_eq', rest, List.append_assoc]
    · exact absurd eq (notWaiting role next)
    · exact .inr ⟨rfl, rfl, top, rest⟩
  · refine .inl ⟨above, ?_⟩
    obtain ⟨frame, rest, eq⟩ := List.exists_cons_of_ne_nil (l := above ++ base :: below) (by simp)
    rw [eq] at stack ⊢
    exact acted.stackOf_other own stack

end Acted

namespace State

variable {client : Client W} {s s' : State W} {thread : ThreadId} {choice : Choice}

/-! ## Steps of one's own -/

/-- The innermost frame of a thread acts. -/
theorem step_of_frame {t : Thread W} {frame : Frame W} {below : List (Frame W)} {p : Progress W}
    (found : s.threads[thread]? = some t) (stack : t.stack = frame :: below)
    (notReply : ∀ reply, frame ≠ .deliver reply)
    (taken : frame.step client (s.sight thread t.worker) choice s.shared = some p) :
    s.step client thread choice =
      some (s.advance thread { p with frames := p.frames ++ below }) := by
  have stacked : stackStep client (s.sight thread t.worker) choice s.shared t.stack =
      some { p with frames := p.frames ++ below } := by
    rw [stack]
    unfold stackStep
    split
    · rename_i eq
      cases eq
    · rename_i eq
      cases eq
      exact absurd rfl (notReply _)
    · rename_i eq
      cases eq
      exact absurd rfl (notReply _)
    · rename_i eq
      cases eq
      rw [taken]
      rfl
  rw [step, found]
  simp only [stacked, Option.map_some]

/-- The step of a thread is that of its innermost frame, unless that delivers a reply. -/
theorem own_event {frame : Frame W} {below : List (Frame W)}
    (stack : s.stackOf thread = frame :: below) (notReply : ∀ reply, frame ≠ .deliver reply)
    (taken : s.step client thread choice = some s') :
    ∃ worker p, frame.step client (s.sight thread worker) choice s.shared = some p ∧
      s'.shared = p.shared ∧ s'.stackOf thread = p.frames ++ below ∧
      s.event client thread = frame.event client worker s.shared below := by
  obtain ⟨acted⟩ := step_cases taken
  have move := acted.move
  have whole := acted.stackOf_eq.symm.trans stack
  have shared := acted.shared'
  have after := acted.stackOf_eq'
  have event := acted.event
  generalize acted.progress = p at move shared after
  generalize acted.top = top at move whole event
  cases move with
  | receive reply role next | pass reply held =>
    cases whole
    exact absurd rfl (notReply reply)
  | act moved =>
    cases whole
    exact ⟨_, _, moved, shared, after, event⟩

theorem own_step {frame : Frame W} {below : List (Frame W)}
    (stack : s.stackOf thread = frame :: below) (notReply : ∀ reply, frame ≠ .deliver reply)
    (taken : s.step client thread choice = some s') :
    ∃ worker p, frame.step client (s.sight thread worker) choice s.shared = some p ∧
      s'.shared = p.shared ∧ s'.stackOf thread = p.frames ++ below := by
  obtain ⟨worker, p, moved, shared, after, _⟩ := own_event stack notReply taken
  exact ⟨worker, p, moved, shared, after⟩

/-- What is below the frame that acts stays, or is answered. -/
theorem step_above {base : Frame W} {above below : List (Frame W)}
    (notReply : ∀ reply, base ≠ .deliver reply) (notHeld : ∀ held, base ≠ .letGo held)
    (stack : s.stackOf thread = above ++ base :: below) (covered : above ≠ [])
    (taken : s.step client thread choice = some s') :
    (∃ above', s'.stackOf thread = above' ++ base :: below) ∨
      ∃ reply role next, base = .waiting role next ∧
        s'.stackOf thread = .running role (next reply) :: below := by
  obtain ⟨acted⟩ := step_cases taken
  rcases acted.move.splits notReply notHeld (stack.symm.trans acted.stackOf_eq) with
    ⟨above', _, rest⟩ | ⟨reply, role, next, _, eq, rest, frames⟩ | ⟨none, _⟩
  · refine .inl ⟨acted.progress.frames ++ above', ?_⟩
    rw [acted.stackOf_eq', rest, List.append_assoc]
  · refine .inr ⟨reply, role, next, eq, ?_⟩
    rw [acted.stackOf_eq', frames, rest]
    rfl
  · exact absurd none covered

variable (client choice) in
/-- A frame that acts at any time lets its thread act. -/
theorem can_step {frame : Frame W} {below : List (Frame W)} {p : Bool → Progress W}
    (stack : s.stackOf thread = frame :: below) (notReply : ∀ reply, frame ≠ .deliver reply)
    (moves : ∀ worker, frame.step client (s.sight thread worker) choice s.shared =
      some (p worker)) :
    ∃ worker s', s.step client thread choice = some s' ∧ s'.shared = (p worker).shared ∧
      s'.stackOf thread = (p worker).frames ++ below := by
  obtain ⟨t, found, eq⟩ := exists_of_stackOf stack
  have taken := step_of_frame found eq notReply (moves t.worker)
  obtain ⟨worker, q, moved, shared, after⟩ := own_step stack notReply taken
  rw [moves] at moved
  cases moved
  exact ⟨worker, _, taken, shared, after⟩

theorem can_advance {stack : List (Frame W)} {p : Progress W} (nonempty : stack ≠ [])
    (found : s.stackOf thread = stack)
    (taken : ∀ sight, stackStep client sight choice s.shared stack = some p) :
    ∃ s', s.step client thread choice = some s' ∧ s'.shared = p.shared ∧
      s'.stackOf thread = p.frames := by
  obtain ⟨frame, below, rfl⟩ := List.exists_cons_of_ne_nil nonempty
  obtain ⟨t, acts, eq⟩ := exists_of_stackOf found
  refine ⟨s.advance thread p, by simp only [step, acts, eq, taken, Option.map_some], rfl, ?_⟩
  have bound : thread < s.threads.length := (List.getElem?_eq_some_iff.1 acts).1
  simp [stackOf, advance, List.getElem?_append_left, bound]

/-- A reply passes what was held on to. -/
theorem can_pass {reply : Reply} {held : Holding} {below : List (Frame W)}
    (stack : s.stackOf thread = .deliver reply :: .letGo held :: below) :
    ∃ s', s.step client thread choice = some s' ∧ s'.shared = s.shared ∧
      s'.stackOf thread = .deliver reply :: below :=
  can_advance (p := { shared := s.shared, frames := .deliver reply :: below })
    (List.cons_ne_nil _ _) stack fun _ => rfl

/-- A reply is handed to the code that waits for it. -/
theorem can_receive {reply : Reply} {role : Role W} {next : Reply → Code W}
    {below : List (Frame W)}
    (stack : s.stackOf thread = .deliver reply :: .waiting role next :: below) :
    ∃ s', s.step client thread choice = some s' ∧ s'.shared = s.shared.receive reply ∧
      s'.stackOf thread = .running role (next reply) :: below :=
  can_advance
    (p := { shared := s.shared.receive reply, frames := .running role (next reply) :: below })
    (List.cons_ne_nil _ _) stack fun _ => rfl

/-! ## Turns -/

def Idles (thread : ThreadId) (log : List (Beat W)) : Prop := ∀ beat ∈ log, beat.thread ≠ thread

variable {start : State W} {log : List (Beat W)}

theorem Log.stackOf_of_idles (run : Log client start log s) (idles : Idles thread log)
    {frame : Frame W} {below : List (Frame W)} (stack : start.stackOf thread = frame :: below) :
    s.stackOf thread = frame :: below := by
  induction run with
  | start => exact stack
  | @step log s s' other choice run taken ih =>
    obtain ⟨acted⟩ := step_cases taken
    have earlier := ih fun beat mem => idles beat (List.mem_append_left _ mem)
    have different : other ≠ thread :=
      idles ⟨s, other⟩ (List.mem_append_right _ List.mem_cons_self)
    exact acted.stackOf_other different.symm earlier

/-! ## Replies on their way -/

/-- A reply is on its way to the code that waits for it: whatever other threads do, the
thread's own steps until then can be taken and change nothing that is shared. -/
inductive Hears (client : Client W) (thread : ThreadId) (code : Code W) (role : Role W)
    (below : List (Frame W)) : State W → Prop
  | heard {s : State W} :
      s.stackOf thread = .running role code :: below → Hears client thread code role below s
  | steps {s : State W} :
      (∀ log here choice, Log client s log here → Idles thread log →
        ∃ next, here.step client thread choice = some next ∧ next.shared = here.shared) →
      (∀ log here choice next, Log client s log here → Idles thread log →
        here.step client thread choice = some next → Hears client thread code role below next) →
      Hears client thread code role below s

/-- A reply is on its way if it is after the next step, which can be taken from any state in
which the thread has this to do. -/
theorem Hears.next {code : Code W} {role : Role W} {below above : List (Frame W)} {frame : Frame W}
    (goes : ∀ (here : State W) choice, here.stackOf thread = frame :: above →
      ∃ next, here.step client thread choice = some next ∧ next.shared = here.shared ∧
        Hears client thread code role below next)
    (stack : s.stackOf thread = frame :: above) : Hears client thread code role below s := by
  refine .steps (fun log here choice run idles => ?_)
    fun log here choice after run idles taken => ?_
  · obtain ⟨next, taken, shared, _⟩ := goes here choice (run.stackOf_of_idles idles stack)
    exact ⟨next, taken, shared⟩
  · obtain ⟨next, taken', _, hears⟩ := goes here choice (run.stackOf_of_idles idles stack)
    obtain rfl := Option.some.inj (taken.symm.trans taken')
    exact hears

section Hearing

variable {reply : Reply} {role : Role W} {next : Reply → Code W} {below : List (Frame W)}
  (bare : ∀ s : Shared W, s.receive reply = s)

include bare

theorem hears_of_waiting
    (stack : s.stackOf thread = .deliver reply :: .waiting role next :: below) :
    Hears client thread (next reply) role below s := by
  refine Hears.next (fun here choice stack => ?_) stack
  obtain ⟨after, taken, shared, later⟩ := can_receive stack
  exact ⟨after, taken, shared.trans (bare _), .heard later⟩

theorem hears_of_letGo {held : Holding}
    (stack : s.stackOf thread = .deliver reply :: .letGo held :: .waiting role next :: below) :
    Hears client thread (next reply) role below s := by
  refine Hears.next (fun here choice stack => ?_) stack
  obtain ⟨after, taken, shared, later⟩ := can_pass stack
  exact ⟨after, taken, shared, hears_of_waiting bare later⟩

end Hearing

end State
end Strands
