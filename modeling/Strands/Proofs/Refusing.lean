/-
What is left to do once a closed runtime refuses a job.

The future of the job fails, and the job is done with (`Frame.step_barred`).  Nothing but chores
is left then, which can be done at any time and take a step or two each (`Frame.step_chore`).
`Operation.Ending` is how an operation comes to its reply from when a future has its outcome:
the callback is notified and has returned before (`Ending.of_replies`), nothing holds the thread
up but client code (`Ending.goes`), and its own steps are counted (`Ending.step`).
-/
import Strands.Proofs.Attempts
import Strands.Proofs.Joining
import Strands.Proofs.Operations
import Strands.Proofs.WriteOnce

namespace Strands

variable {W : Type}

namespace Frame

def isChore : Frame W → Bool
  | letGo _ | leave | discard _ | dropHandle | shutdown | announce _ => true
  | _ => false

/-- How many steps a chore takes at most once the flag is up. -/
def choreLength : Frame W → Nat
  | dropHandle => 2
  | _ => 1

def barred? : Frame W → Option (FutureId × Asker)
  | enter p => some (p.future, p.asker)
  | push job asker | checkOpen _ job asker => some (job.future, asker)
  | _ => none

def barLength : Frame W → Nat
  | enter _ => 2
  | _ => 1

end Frame

def Chores (frames : List (Frame W)) : Prop := ∀ frame ∈ frames, frame.isChore = true

theorem chores_nil : Chores ([] : List (Frame W)) := fun _ mem => by cases mem

theorem chores_cons {frame : Frame W} {frames : List (Frame W)} :
    Chores (frame :: frames) ↔ frame.isChore = true ∧ Chores frames := List.forall_mem_cons

theorem chores_of_all {frames : List (Frame W)} (all : frames.all Frame.isChore = true) :
    Chores frames := List.all_eq_true.1 all

theorem chores_append {a b : List (Frame W)} : Chores (a ++ b) ↔ Chores a ∧ Chores b :=
  List.forall_mem_append

section Steps

variable {client : Client W} {sight : Sight} {choice : Choice} {s : Shared W} {frame : Frame W}
  {p : Progress W}

theorem Frame.step_chore (up : s.flag = true) (chore : frame.isChore = true)
    (taken : frame.step client sight choice s = some p) :
    Chores p.frames ∧ weigh choreLength p.frames < frame.choreLength := by
  cases frame with
  | dropHandle =>
    cases taken
    simp only [dropHandleStep]
    split
    · exact ⟨chores_cons.2 ⟨rfl, chores_nil⟩, Nat.lt_succ_self _⟩
    · exact ⟨chores_nil, Nat.zero_lt_succ _⟩
  | shutdown =>
    cases taken
    simp only [shutdownStep, up, if_true]
    exact ⟨chores_nil, Nat.zero_lt_succ _⟩
  | letGo | leave | discard | announce =>
    cases taken
    exact ⟨chores_nil, Nat.zero_lt_succ _⟩
  | _ => cases chore

variable (client sight choice s) in
theorem Frame.chore_can (chore : frame.isChore = true) :
    ∃ p, frame.step client sight choice s = some p := by
  cases frame with
  | letGo | leave | discard | dropHandle | shutdown | announce => exact ⟨_, rfl⟩
  | _ => cases chore

/-- A job on its way to a closed queue, or to a lane, is refused. -/
theorem Frame.step_barred {f : FutureId} {asker : Asker} (closed : s.queue.closed = true)
    (bars : frame.barred? = some (f, asker)) (taken : frame.step client sight choice s = some p) :
    (∃ next, p.frames = [next] ∧ next.barred? = some (f, asker) ∧
      next.barLength < frame.barLength) ∨
    ∃ job, p.frames = .settle f refusal :: .discard job :: asker.answer (.error .shutDown) := by
  cases frame with
  | enter placing =>
    cases bars
    cases taken
    refine .inl ?_
    simp only [enterStep]
    split <;> exact ⟨_, rfl, rfl, Nat.lt_succ_self _⟩
  | push job asker =>
    cases bars
    cases taken
    exact .inr ⟨job, by simp [pushStep, RunQueue.push, closed, Job.refuse]⟩
  | checkOpen receiver job asker =>
    cases bars
    cases taken
    exact .inr ⟨job, by simp [checkOpenStep, closed, Job.refuse]⟩
  | _ => cases bars

variable (client sight choice s) in
theorem Frame.barred_can {f : FutureId} {asker : Asker} (bars : frame.barred? = some (f, asker)) :
    ∃ p, frame.step client sight choice s = some p := by
  cases frame with
  | enter | push | checkOpen => exact ⟨_, rfl⟩
  | _ => cases bars

end Steps

namespace State

variable {client : Client W} {s s' : State W} {thread : ThreadId} {choice : Choice} {f : FutureId}
  {outcome : Outcome} {rest : List (Frame W)} {u : Future W}

/-- A pending future gets its outcome, and its callback is notified. -/
theorem settle_pending {callback : Callback W}
    (stack : s.stackOf thread = .settle f outcome :: rest)
    (found : s.shared.futures.get? f = some u) (pending : u.state = none)
    (own : u.callback = some callback) (taken : s.step client thread choice = some s') :
    s'.stackOf thread = callback.notify outcome ++ .announce f :: rest ∧
      s.event client thread = .notified f outcome (callback.failing outcome) := by
  obtain ⟨worker, p, moved, _, after, event⟩ := own_event stack (by rintro reply ⟨⟩) taken
  obtain ⟨strand, returnType, state, callback', notified, claimed, kept⟩ := u
  obtain rfl : state = none := pending
  obtain rfl : callback' = some callback := own
  cases moved
  rw [after, event, settleStep_of_none found rfl rfl]
  exact ⟨by simp, by simp [Frame.event, found]⟩

/-- An outcome that comes too late is ignored. -/
theorem settle_late (stack : s.stackOf thread = .settle f outcome :: rest)
    (found : s.shared.futures.get? f = some u) (complete : u.state.isSome)
    (taken : s.step client thread choice = some s') :
    s'.stackOf thread = rest ∧ s.event client thread = .ignored f := by
  obtain ⟨worker, p, moved, _, after, event⟩ := own_event stack (by rintro reply ⟨⟩) taken
  cases moved
  rw [after, event, settleStep_of_some found complete]
  obtain ⟨strand, returnType, state, callback, notified, claimed, kept⟩ := u
  cases state with
  | none => cases complete
  | some earlier => exact ⟨rfl, by simp [Frame.event, found]⟩

end State

namespace Operation

variable {d : Operation W} {client : Client W} {s s' : State W} {log : List (Beat W)}
  {choice : Choice} {f : FutureId} {o : Outcome} {reply : Reply} {held : Holding}
  {chores : List (Frame W)}

variable (d) in
def passes (reply : Reply) (held : Holding) : List (Frame W) :=
  .deliver reply :: .letGo held :: d.waits

theorem lends_of_callback {code : Code W} {stack : List (Frame W)}
    (hosted : Hosted (.callback o) code (.announce f :: (chores ++ d.passes reply held)) none
      stack) : d.lends stack = true := by
  have split : .announce f :: (chores ++ d.passes reply held) =
      (.announce f :: (chores ++ [.deliver reply, .letGo held])) ++ d.waits := by simp [passes]
  exact lends_of_hosted (split ▸ hosted)

theorem chores_step (lasts : d.Lasts s) (all : Chores chores)
    (stack : s.stackOf d.thread = chores ++ d.passes reply held)
    (taken : s.step client d.thread choice = some s') :
    (∃ chores', Chores chores' ∧ weigh Frame.choreLength chores' < weigh Frame.choreLength chores ∧
      s'.stackOf d.thread = chores' ++ d.passes reply held) ∨
    chores = [] ∧ s'.stackOf d.thread = d.replies reply := by
  cases chores with
  | nil => exact .inr ⟨rfl, (State.leaves_of_pass stack taken).1⟩
  | cons frame rest =>
    obtain ⟨chore, others⟩ := chores_cons.1 all
    obtain ⟨worker, p, moved, _, after⟩ :=
      State.own_step stack (by rintro reply rfl; cases chore) taken
    obtain ⟨left, less⟩ := Frame.step_chore lasts.closed.flag chore moved
    refine .inl ⟨p.frames ++ rest, chores_append.2 ⟨left, others⟩, ?_, ?_⟩
    · rw [weigh_append, weigh_cons]
      omega
    · exact after.trans (List.append_assoc _ _ _).symm

variable (client choice) in
theorem chores_can (all : Chores chores)
    (stack : s.stackOf d.thread = chores ++ d.passes reply held) :
    ∃ s', s.step client d.thread choice = some s' := by
  cases chores with
  | nil =>
    obtain ⟨s', taken, _⟩ : ∃ s', s.step client d.thread choice = some s' ∧ _ :=
      State.can_pass stack
    exact ⟨s', taken⟩
  | cons frame rest =>
    have chore := (chores_cons.1 all).1
    exact State.exists_step stack (by rintro reply rfl; cases chore) fun sight =>
      Frame.chore_can client sight choice s.shared chore

variable (d client) in
/-- What is left of an operation once a future has its outcome, with how many steps of its own
this takes at most. -/
inductive Ending (f : FutureId) (o : Outcome) (reply : Reply) (held : Holding)
    (log : List (Beat W)) : Nat → List (Frame W) → Prop
  | notifies {code : Code W} {chores stack : List (Frame W)}
      {ended : Option (Except Panic Outcome)} : Chores chores →
      .notified f o none ∈ events client log →
      Hosted (.callback o) code (.announce f :: (chores ++ d.passes reply held)) ended stack →
      Ending f o reply held log (weigh Frame.choreLength chores + 3) stack
  | announces {chores : List (Frame W)} : Chores chores →
      .notified f o none ∈ events client log →
      Ending f o reply held log (weigh Frame.choreLength chores + 2)
        (.announce f :: (chores ++ d.passes reply held))
  | chores {chores : List (Frame W)} : Chores chores → .notified f o none ∈ events client log →
      .announced f ∈ events client log →
      Ending f o reply held log (weigh Frame.choreLength chores + 1)
        (chores ++ d.passes reply held)
  | replies : .notified f o none ∈ events client log → .announced f ∈ events client log →
      Ending f o reply held log 0 (d.replies reply)

namespace Ending

variable {left : Nat} {stack : List (Frame W)}

theorem mono (ending : d.Ending client f o reply held log left stack) (later : List (Beat W)) :
    d.Ending client f o reply held (log ++ later) left stack := by
  have more {e : Event} (mem : e ∈ events client log) : e ∈ events client (log ++ later) :=
    mem_events_left mem _
  cases ending with
  | notifies all notified hosted => exact .notifies all (more notified) hosted
  | announces all notified => exact .announces all (more notified)
  | chores all notified announced => exact .chores all (more notified) (more announced)
  | replies notified announced => exact .replies (more notified) (more announced)

/-- The future has its outcome, and its callback begins to run. -/
theorem begins {code : Code W} (all : Chores chores)
    (notified : .notified f o none ∈ events client log) :
    d.Ending client f o reply held log (weigh Frame.choreLength chores + 3)
      (.running (.callback o) code :: .announce f :: (chores ++ d.passes reply held)) :=
  .notifies all notified Hosted.begins

/-- Each step of the thread brings the reply nearer, unless client code has it. -/
theorem step (ending : d.Ending client f o reply held log left (s.stackOf d.thread))
    (lasts : d.Lasts s) (taken : s.step client d.thread choice = some s') :
    ∃ left', d.Ending client f o reply held (log ++ [⟨s, d.thread⟩]) left'
        (s'.stackOf d.thread) ∧
      (left' < left ∨ left' = left ∧ d.lends (s.stackOf d.thread) = true) := by
  have more {e : Event} (mem : e ∈ events client log) :
      e ∈ events client (log ++ [⟨s, d.thread⟩]) := mem_events_left mem _
  generalize stack : s.stackOf d.thread = frames at ending
  cases ending with
  | @notifies code chores _ ended all notified hosted =>
    rw [← stack] at hosted
    cases ended with
    | none =>
      have lends := lends_of_callback hosted
      obtain ⟨ended, next⟩ := State.hosted_step hosted taken
      exact ⟨_, .notifies all (more notified) next, .inr ⟨rfl, stack ▸ lends⟩⟩
    | some result =>
      obtain ⟨_, after⟩ := State.ending_step hosted taken
      rw [after]
      exact ⟨_, .announces all (more notified), .inl (Nat.lt_succ_self _)⟩
  | @announces chores all notified =>
    obtain ⟨worker, p, moved, _, after, event⟩ :=
      State.own_event stack (by rintro reply ⟨⟩) taken
    cases moved
    rw [after]
    exact ⟨_, .chores all (more notified) (mem_events_last log event),
      .inl (Nat.lt_succ_self _)⟩
  | @chores chores all notified announced =>
    rcases chores_step lasts all stack taken with ⟨chores', left, less, after⟩ | ⟨rfl, after⟩
    · rw [after]
      exact ⟨_, .chores left (more notified) (more announced), .inl (Nat.succ_lt_succ less)⟩
    · rw [after]
      exact ⟨_, .replies (more notified) (more announced), .inl (Nat.zero_lt_succ _)⟩
  | replies => exact absurd stack (lasts.unreplied reply)

/-- The thread can go on, unless client code has it. -/
theorem goes (ending : d.Ending client f o reply held log left (s.stackOf d.thread))
    (unreplied : s.stackOf d.thread ≠ d.replies reply) (choice : Choice) :
    (∃ s', s.step client d.thread choice = some s') ∨ d.lends (s.stackOf d.thread) = true := by
  generalize stack : s.stackOf d.thread = frames at ending
  cases ending with
  | @notifies code chores _ ended all notified hosted =>
    cases ended with
    | none =>
      exact .inr (lends_of_callback hosted)
    | some result => exact .inl (State.can_end client choice (stack ▸ hosted))
  | announces =>
    exact .inl (State.exists_step stack (by rintro reply ⟨⟩) fun sight => ⟨_, rfl⟩)
  | chores all => exact .inl (chores_can client choice all stack)
  | replies => exact absurd stack unreplied

/-- When the operation replies, the callback was notified and has returned. -/
theorem of_replies {reply' : Reply}
    (ending : d.Ending client f o reply held log left (d.replies reply')) :
    reply' = reply ∧ .notified f o none ∈ events client log ∧
      .announced f ∈ events client log := by
  generalize eq : d.replies reply' = frames at ending
  have length := congrArg List.length eq
  simp only [Operation.replies, List.length_cons] at length
  cases ending with
  | notifies all notified hosted =>
    have long := hosted.suffix.2
    simp only [passes, List.length_cons, List.length_append] at long
    omega
  | announces | chores =>
    simp only [passes, List.length_cons, List.length_append] at length
    omega
  | replies notified announced =>
    cases eq
    exact ⟨rfl, notified, announced⟩

end Ending

end Operation

end Strands
