/-
One step, taken apart.

A step replaces the innermost frames of one thread and leaves all other frames where
they are.  `Move` says which frames are replaced and what by: a reply is handed to
the code that waits for it, or past what was held on to for the request, and in all
other cases one frame acts.  `State.step_cases` finds the move behind a step.

Many frames only look, ring, rest or wait.  `Frame.step_of_lingers` says once and for
all what their steps can do, which is next to nothing, and nothing is told of them.
-/
import Strands.Proofs.Event

namespace Strands

variable {W : Type}

/-! ## Steps of no consequence -/

namespace Frame

/-- Frames that look, ring, rest or wait. -/
def lingers : Frame W → Bool
  | letGo _ | ring | ringAll | checkFlag | lockBell | recheckQueue | recheckFlag | settleDown
  | rest | getUp | raiseFlag | lockCrew | join _ | awaitFuture _ | awaitFutureAtMost _ _ => true
  | _ => false

/-- Frames that hold nothing for others. -/
def isEmptyHanded : Frame W → Bool
  | poll | deliver (.outcome _) => true
  | frame => frame.lingers

theorem isEmptyHanded_of_lingers {frame : Frame W} (lingers : frame.lingers = true) :
    frame.isEmptyHanded = true := by
  cases frame <;> first | rfl | cases lingers

end Frame

/-- A step that touches the bell, the flag and the list of workers at most, and leaves nobody
with anything in hand. -/
structure Lingering (s : Shared W) (p : Progress W) : Prop where
  shared : p.shared =
    { s with bell := p.shared.bell, flag := p.shared.flag, crew := p.shared.crew }
  frames : ∀ next ∈ p.frames, next.isEmptyHanded = true
  spawned : p.spawned = []

namespace Frame

theorem step_of_lingers {client : Client W} {sight : Sight} {choice : Choice} {s : Shared W}
    {frame : Frame W} {p : Progress W} (lingers : frame.lingers = true)
    (taken : frame.step client sight choice s = some p) : Lingering s p := by
  cases frame with
  | letGo held | raiseFlag => cases taken; exact ⟨rfl, by simp [raiseFlagStep], rfl⟩
  | ring | ringAll =>
    simp only [step, ringStep] at taken
    split at taken <;> cases taken
    exact ⟨rfl, by simp, rfl⟩
  | checkFlag =>
    cases taken
    refine ⟨rfl, ?_, rfl⟩
    cases raised : s.flag <;> simp [checkFlagStep, raised, isEmptyHanded, Frame.lingers]
  | lockBell =>
    simp only [step, lockBellStep] at taken
    split at taken <;> cases taken
    exact ⟨rfl, by simp [isEmptyHanded, Frame.lingers], rfl⟩
  | recheckQueue =>
    cases taken
    simp only [recheckQueueStep]
    split <;> exact ⟨rfl, by simp [isEmptyHanded, Frame.lingers], rfl⟩
  | recheckFlag =>
    cases taken
    simp only [recheckFlagStep]
    split <;> exact ⟨rfl, by simp [isEmptyHanded, Frame.lingers], rfl⟩
  | settleDown =>
    cases taken
    simp only [settleDownStep]
    split <;> exact ⟨rfl, by simp [isEmptyHanded, Frame.lingers], rfl⟩
  | rest =>
    simp only [step, restStep] at taken
    split at taken
    · split at taken <;> cases taken
      exact ⟨rfl, by simp [isEmptyHanded, Frame.lingers], rfl⟩
    · cases taken
      exact ⟨rfl, by simp [isEmptyHanded, Frame.lingers], rfl⟩
  | getUp =>
    simp only [step, getUpStep] at taken
    split at taken <;> cases taken
    exact ⟨rfl, by simp [isEmptyHanded], rfl⟩
  | lockCrew =>
    simp only [step, lockCrewStep] at taken
    split at taken <;> cases taken
    exact ⟨rfl, by simp [isEmptyHanded, Frame.lingers], rfl⟩
  | join workers =>
    cases workers with
    | nil => cases taken; exact ⟨rfl, by simp, rfl⟩
    | cons first others =>
      simp only [step, joinStep] at taken
      split at taken <;> cases taken
      exact ⟨rfl, by simp [isEmptyHanded, Frame.lingers], rfl⟩
  | awaitFuture future | awaitFutureAtMost future milliseconds =>
    simp only [step, awaitFutureStep] at taken
    split at taken
    · cases taken
      exact ⟨rfl, by simp [isEmptyHanded], rfl⟩
    · split at taken <;> cases taken
      exact ⟨rfl, by simp [isEmptyHanded], rfl⟩
  | _ => cases lingers

/-- Nothing is told of a frame that lingers. -/
theorem event_of_lingers {frame : Frame W} (lingers : frame.lingers = true) (client : Client W)
    (worker : Bool) (s : Shared W) (below : List (Frame W)) :
    frame.event client worker s below = .other := by
  cases frame <;> first | rfl | cases lingers

end Frame

/-! ## What is left alone -/

/-- Nothing is done to the bell, the flag, the list of workers and the registry. -/
structure Steady (s : Shared W) (p : Progress W) : Prop where
  bell : p.shared.bell = s.bell
  flag : p.shared.flag = s.flag
  crew : p.shared.crew = s.crew
  registry : p.shared.registry = s.registry

section Steady

variable {client : Client W} {sight : Sight} {choice : Choice} {s : Shared W} {p : Progress W}

theorem Role.ended_shared (role : Role W) (result : Except Panic Outcome) :
    (role.ended client s result).shared = { (role.ended client s result).shared with
      queue := s.queue, bell := s.bell, flag := s.flag, crew := s.crew, registry := s.registry } := by
  cases role with
  | query object site =>
    cases result with
    | ok outcome => cases site <;> rfl
    | error panic => rfl
  | _ => rfl

/-- Managed code touches neither the run queue nor the bell, the flag and the list of workers. -/
theorem Code.step_shared {late : Bool} {role : Role W} {code : Code W}
    (taken : code.step client sight late s role = some p) :
    p.shared = { p.shared with
      queue := s.queue, bell := s.bell, flag := s.flag, crew := s.crew } := by
  cases code with
  | finish outcome | panic payload => cases taken; rw [role.ended_shared]
  | await ready next =>
    simp only [step] at taken
    split at taken <;> cases taken
    rfl
  | awaitAtMost milliseconds ready next =>
    simp only [step] at taken
    split at taken
    · cases taken
      rfl
    · split at taken <;> cases taken
      rfl
  | ask request next =>
    cases taken
    cases request with
    | takeHandle =>
      simp only [Request.serve]
      split <;> rfl
    | _ => rfl
  | _ => cases taken; rfl

/-- Other frames than those that linger, pieces of code and stops leave these alone. -/
theorem Frame.step_steady {frame : Frame W} (busy : frame.lingers = false)
    (notCode : ∀ role code, frame ≠ .running role code)
    (notStop : ∀ shutsDown, frame ≠ .takeHandlers shutsDown)
    (taken : frame.step client sight choice s = some p) : Steady s p := by
  cases frame with
  | running role code => exact absurd rfl (notCode role code)
  | takeHandlers shutsDown => exact absurd rfl (notStop shutsDown)
  | waiting role next => cases taken
  | deliver reply => cases taken; cases reply <;> exact ⟨rfl, rfl, rfl, rfl⟩
  | claim placing =>
    cases taken
    simp only [claimStep]
    split <;> exact ⟨rfl, rfl, rfl, rfl⟩
  | push job asker =>
    cases taken
    simp only [pushStep]
    split <;> exact ⟨rfl, rfl, rfl, rfl⟩
  | locate receiver job asker =>
    cases taken
    simp only [locateStep, Shared.locate]
    split <;> exact ⟨rfl, rfl, rfl, rfl⟩
  | append receiver group job asker =>
    cases taken
    simp only [appendStep]
    split <;> exact ⟨rfl, rfl, rfl, rfl⟩
  | submit group asker =>
    cases taken
    simp only [submitStep]
    split <;> exact ⟨rfl, rfl, rfl, rfl⟩
  | drain group =>
    cases taken
    simp only [drainStep]
    split <;> exact ⟨rfl, rfl, rfl, rfl⟩
  | settle f outcome =>
    cases taken
    simp only [settleStep]
    split <;> exact ⟨rfl, rfl, rfl, rfl⟩
  | evaluate r =>
    cases taken
    simp only [evaluateStep]
    split <;> exact ⟨rfl, rfl, rfl, rfl⟩
  | poll =>
    cases taken
    simp only [pollStep]
    split <;> exact ⟨rfl, rfl, rfl, rfl⟩
  | turn group =>
    cases taken
    simp only [turnStep]
    split <;> exact ⟨rfl, rfl, rfl, rfl⟩
  | endTurn group =>
    cases taken
    simp only [endTurnStep]
    split <;> exact ⟨rfl, rfl, rfl, rfl⟩
  | awaitIdle =>
    simp only [step, awaitIdleStep] at taken
    split at taken <;> cases taken
    exact ⟨rfl, rfl, rfl, rfl⟩
  | awaitListeners stopping =>
    simp only [step, awaitListenersStep] at taken
    split at taken
    · cases taken
      exact ⟨rfl, rfl, rfl, rfl⟩
    · split at taken <;> cases taken
      exact ⟨rfl, rfl, rfl, rfl⟩
  | letGo held | ring | ringAll | checkFlag | lockBell | recheckQueue | recheckFlag | settleDown
  | rest | getUp | raiseFlag | lockCrew | join workers | awaitFuture f
  | awaitFutureAtMost f milliseconds => cases busy
  | _ => cases taken; exact ⟨rfl, rfl, rfl, rfl⟩

end Steady

/-! ## Moves -/

/-- The frames a step replaces, with the progress that replaces them. -/
inductive Move (client : Client W) (sight : Sight) (choice : Choice) (s : Shared W) :
    List (Frame W) → Progress W → Prop
  | receive (reply : Reply) (role : Role W) (next : Reply → Code W) :
      Move client sight choice s [.deliver reply, .waiting role next]
        { shared := s.receive reply, frames := [.running role (next reply)] }
  | pass (reply : Reply) (held : Holding) :
      Move client sight choice s [.deliver reply, .letGo held]
        { shared := s, frames := [.deliver reply] }
  | act {frame : Frame W} {p : Progress W} :
      frame.step client sight choice s = some p → Move client sight choice s [frame] p

namespace Move

def event (client : Client W) (worker : Bool) (s : Shared W) (below : List (Frame W)) :
    List (Frame W) → Event
  | [frame] => frame.event client worker s below
  | [.deliver reply, .waiting _ _] => reply.event
  | _ => .other

end Move

/-- A step of a stack is a move of its innermost frames. -/
theorem stackStep_cases {client : Client W} {sight : Sight} {choice : Choice} {s : Shared W}
    (worker : Bool) {stack : List (Frame W)} {p : Progress W}
    (h : stackStep client sight choice s stack = some p) :
    ∃ top below q, stack = top ++ below ∧ Move client sight choice s top q ∧
      p = { q with frames := q.frames ++ below } ∧
      stackEvent client worker s stack = Move.event client worker s below top := by
  unfold stackStep at h
  split at h
  · cases h
  · rename_i reply role next below
    cases h
    exact ⟨_, below, _, rfl, .receive reply role next, rfl, rfl⟩
  · rename_i reply held below
    cases h
    exact ⟨_, below, _, rfl, .pass reply held, rfl, rfl⟩
  · rename_i frame below notReceived notPassed
    obtain ⟨q, taken, eq⟩ := Option.map_eq_some_iff.1 h
    refine ⟨[frame], below, q, rfl, .act taken, eq.symm, ?_⟩
    unfold stackEvent
    split
    · rename_i nothing
      cases nothing
    · rename_i reply held rest eq
      cases eq
      exact absurd rfl (notPassed reply held rest rfl)
    · rename_i eq
      cases eq
      rfl

/-- The event of a move is that of its innermost frame. -/
theorem Move.has_event {client : Client W} {sight : Sight} {choice : Choice} {s : Shared W}
    {top : List (Frame W)} {p : Progress W} (move : Move client sight choice s top p)
    (worker : Bool) (below : List (Frame W)) :
    ∃ frame above, top = frame :: above ∧
      frame.Has worker s (above ++ below) (Move.event client worker s below top) := by
  cases move with
  | receive reply role next =>
    exact ⟨_, _, rfl, Frame.has_event client s worker _ (.deliver reply)⟩
  | pass reply held => exact ⟨_, _, rfl, .other⟩
  | @act frame _ taken => exact ⟨frame, [], rfl, frame.has_event client s worker below⟩

/-- A thread's step, with the threads before and after it and what stays of its stack. -/
structure Acted (client : Client W) (s s' : State W) (thread : ThreadId) (choice : Choice) where
  before : List (Thread W)
  position : before.length = thread
  after : List (Thread W)
  actor : Thread W
  top : List (Frame W)
  below : List (Frame W)
  progress : Progress W
  threads : s.threads = before ++ actor :: after
  stack : actor.stack = top ++ below
  move : Move client (s.sight thread actor.worker) choice s.shared top progress
  shared' : s'.shared = progress.shared
  threads' : s'.threads =
    before ++ { actor with stack := progress.frames ++ below } :: after ++
      progress.spawned.map State.clientThread
  event : s.event client thread = Move.event client actor.worker s.shared below top

namespace Acted

variable {client : Client W} {s s' : State W} {thread : ThreadId} {choice : Choice}
  (acted : Acted client s s' thread choice)

include acted

theorem actor_mem : acted.actor ∈ s.threads := by
  rw [acted.threads]
  simp

theorem actor_eq : s.threads[thread]? = some acted.actor := by
  obtain ⟨before, rfl, after, actor, top, below, p, threads, _⟩ := acted
  simp [threads]

theorem actor_eq' : s'.threads[thread]? =
    some { acted.actor with stack := acted.progress.frames ++ acted.below } := by
  obtain ⟨before, rfl, after, actor, top, below, p, _, _, _, _, threads', _⟩ := acted
  simp [threads']

/-- Any other thread stays as it is, or was just started. -/
theorem other_eq {other : ThreadId} (different : other ≠ thread) {t : Thread W}
    (found : s'.threads[other]? = some t) :
    s.threads[other]? = some t ∨ ∃ code ∈ acted.progress.spawned, t = State.clientThread code := by
  obtain ⟨before, rfl, after, actor, top, below, p, threads, _, _, _, threads', _⟩ := acted
  rw [threads', List.append_assoc] at found
  rw [threads]
  rcases Nat.lt_or_gt_of_ne different with lt | gt
  · rw [List.getElem?_append_left lt] at found ⊢
    exact .inl found
  · rw [List.getElem?_append_right (Nat.le_of_lt gt)] at found ⊢
    obtain ⟨n, eq⟩ : ∃ n, other - before.length = n + 1 :=
      ⟨_, (Nat.sub_add_cancel (Nat.sub_pos_of_lt gt)).symm⟩
    rw [eq, List.cons_append, List.getElem?_cons_succ, List.getElem?_append] at found
    rw [eq, List.getElem?_cons_succ]
    split at found
    · exact .inl found
    · obtain ⟨code, mem, rfl⟩ := List.mem_map.1 (List.mem_of_getElem? found)
      exact .inr ⟨code, mem, rfl⟩

end Acted

namespace State

theorem step_cases {client : Client W} {s s' : State W} {thread : ThreadId} {choice : Choice}
    (h : s.step client thread choice = some s') :
    Nonempty (Acted client s s' thread choice) := by
  unfold step at h
  split at h
  · cases h
  · rename_i actor found
    obtain ⟨p, taken, eq⟩ := Option.map_eq_some_iff.1 h
    obtain ⟨top, below, q, stack, move, rfl, event⟩ :=
      stackStep_cases actor.worker taken
    obtain ⟨bound, rfl⟩ := List.getElem?_eq_some_iff.1 found
    refine ⟨⟨s.threads.take thread, List.length_take_of_le (Nat.le_of_lt bound),
      s.threads.drop (thread + 1), s.threads[thread], top, below, q, ?_, stack, move, ?_, ?_, ?_⟩⟩
    · simp
    · rw [← eq]; rfl
    · rw [← eq]
      simp [advance, List.modify_eq_take_cons_drop bound]
    · simp only [State.event, found]
      exact event

end State
end Strands
