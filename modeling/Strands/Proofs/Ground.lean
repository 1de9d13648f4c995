/-
Why frames may stand where they stand.

A frame only comes to lie on a stack for a reason, and the reason is found in the
history and in the frames below it, which stay what they are for as long as the frame
is there.  `Frame.Grounded` gives the reason for each frame: an outcome about to be
stored has an origin; a completion is covered by a share of the count of work in
flight, or by the caller who has not yet been handed the future; a future that is
handed over, or a unit that is being bound, was begun on behalf of the futures whose
code runs below; and the queue is only closed after a wait or by a worker.
`Trace.grounded` says that all frames are grounded along every trace.
-/
import Strands.Proofs.Once

namespace Strands

variable {W : Type}

/-! ## Stacks of frames with reasons -/

/-- Each frame of a stack satisfies a condition with the frames below it. -/
def Stacked (P : List (Frame W) → Frame W → Prop) : List (Frame W) → Prop
  | [] => True
  | frame :: below => P below frame ∧ Stacked P below

theorem Stacked.mono {P Q : List (Frame W) → Frame W → Prop} (h : ∀ below frame, P below frame → Q below frame) :
    ∀ {stack : List (Frame W)}, Stacked P stack → Stacked Q stack
  | [], _ => trivial
  | _ :: _, ⟨here, rest⟩ => ⟨h _ _ here, rest.mono h⟩

theorem Stacked.below {P : List (Frame W) → Frame W → Prop} {below : List (Frame W)} :
    ∀ {top : List (Frame W)}, Stacked P (top ++ below) → Stacked P below
  | [], h => h
  | _ :: _, ⟨_, h⟩ => h.below

/-- Frames that may stand anywhere may be put on a stack. -/
theorem Stacked.append {P : List (Frame W) → Frame W → Prop} {frames below : List (Frame W)}
    (anywhere : ∀ frame ∈ frames, ∀ lower, P lower frame) (rest : Stacked P below) :
    Stacked P (frames ++ below) := by
  induction frames with
  | nil => exact rest
  | cons frame others ih =>
    obtain ⟨here, others⟩ := List.forall_mem_cons.1 anywhere
    exact ⟨here _, ih others⟩

/-- A frame of a stack, the frames below it and what is known of both. -/
theorem Stacked.find {P : List (Frame W) → Frame W → Prop} {frame : Frame W} :
    ∀ {stack : List (Frame W)}, Stacked P stack → frame ∈ stack →
      ∃ above below, stack = above ++ frame :: below ∧ P below frame ∧ Stacked P below
  | first :: rest, ⟨here, lower⟩, mem => by
    rcases List.mem_cons.1 mem with rfl | mem
    · exact ⟨[], rest, rfl, here, lower⟩
    · obtain ⟨above, below, rfl, found, lowest⟩ := Stacked.find lower mem
      exact ⟨first :: above, below, rfl, found, lowest⟩

namespace State

variable {workers : Nat} {world : W} {kept : List ObjectId} {threads : List (Code W)}
  {P Q : List (Frame W) → Frame W → Prop}

/-- At the start workers look at the queue, and other threads have their code before them. -/
theorem stack_of_start {t : Thread W}
    (mem : t ∈ (State.start workers world kept threads).threads) :
    t.worker = true ∧ t.stack = [.poll] ∨
      t.worker = false ∧ ∃ code ∈ threads, t.stack = [.running .thread code] := by
  rcases List.mem_append.1 mem with worker | ofClient
  · obtain rfl := (List.mem_replicate.1 worker).2
    exact .inl ⟨rfl, rfl⟩
  · obtain ⟨code, given, rfl⟩ := List.mem_map.1 ofClient
    exact .inr ⟨rfl, code, given, rfl⟩

/-- What holds of all frames of workers, and of other threads, at the start. -/
theorem stacked_start_staff {P : Bool → List (Frame W) → Frame W → Prop} (poll : P true [] .poll)
    (first : ∀ code ∈ threads, P false [] (.running .thread code)) :
    ∀ t ∈ (State.start workers world kept threads).threads, Stacked (P t.worker) t.stack := by
  intro t mem
  rcases stack_of_start mem with ⟨worker, stack⟩ | ⟨outside, code, given, stack⟩
  · rw [worker, stack]
    exact ⟨poll, trivial⟩
  · rw [outside, stack]
    exact ⟨first code given, trivial⟩

/-- The same of what does not depend on the thread. -/
theorem stacked_start (poll : P [] .poll)
    (first : ∀ code ∈ threads, P [] (.running .thread code)) :
    ∀ t ∈ (State.start workers world kept threads).threads, Stacked P t.stack :=
  stacked_start_staff (P := fun _ => P) poll first

/-- What holds of all frames of workers, and of other threads, after a step: frames that stay
where they are keep what they have, and the move leaves such frames on top of them. -/
theorem stacked_step_staff {P Q : Bool → List (Frame W) → Frame W → Prop} {client : Client W}
    {s s' : State W} {thread : ThreadId} {choice : Choice}
    (acted : Acted client s s' thread choice) (all : ∀ t ∈ s.threads, Stacked (P t.worker) t.stack)
    (last : ∀ worker below frame, P worker below frame → Q worker below frame)
    (move : Stacked (P acted.actor.worker) (acted.top ++ acted.below) →
      Stacked (Q acted.actor.worker) acted.below →
      Stacked (Q acted.actor.worker) (acted.progress.frames ++ acted.below))
    (first : ∀ code ∈ acted.progress.spawned, Q false [] (.running .thread code)) :
    ∀ t ∈ s'.threads, Stacked (Q t.worker) t.stack := by
  intro t mem
  rw [acted.threads'] at mem
  rw [acted.threads] at all
  simp only [List.mem_append, List.mem_cons, List.mem_map] at mem
  rcases mem with (earlier | rfl | later) | ⟨code, spawned, rfl⟩
  · exact (all t (by simp [earlier])).mono (last _)
  · have stacked := all acted.actor (by simp)
    rw [acted.stack] at stacked
    exact move stacked (stacked.below.mono (last _))
  · exact (all t (by simp [later])).mono (last _)
  · exact ⟨first code spawned, trivial⟩

/-- The same of what does not depend on the thread. -/
theorem stacked_step {client : Client W} {s s' : State W} {thread : ThreadId} {choice : Choice}
    (acted : Acted client s s' thread choice) (all : ∀ t ∈ s.threads, Stacked P t.stack)
    (last : ∀ below frame, P below frame → Q below frame)
    (move : Stacked P (acted.top ++ acted.below) → Stacked Q acted.below →
      Stacked Q (acted.progress.frames ++ acted.below))
    (first : ∀ code ∈ acted.progress.spawned, Q [] (.running .thread code)) :
    ∀ t ∈ s'.threads, Stacked Q t.stack :=
  stacked_step_staff (P := fun _ => P) (Q := fun _ => Q) acted all (fun _ => last) move first

end State

/-! ## Reasons -/

def Guarded (below : List (Frame W)) : Prop := 0 < weigh Stake.share (Frame.stakesOf below)

def Replied (history : List Event) (f : FutureId) (below : List (Frame W)) : Prop :=
  .deliver (.future f) ∈ below ∧ ∃ fault context, .opened f fault context ∈ history

/-- The future was made for the scheduler's own use. -/
def Spare (history : List Event) (f : FutureId) : Prop :=
  (∃ call, .argument f call ∈ history) ∨ .asked f ∈ history

def OnLane (history : List Event) (f : FutureId) (below : List (Frame W)) : Prop :=
  .started f ∈ history ∨
    ∃ receiver group, .turned receiver group f ∈ history ∧ .endTurn group ∈ below

/-- The job of a future was refused. -/
def Refused (history : List Event) (f : FutureId) : Prop :=
  .refused f ∈ history ∨ .stranded f ∈ history ∨
    (∃ group futures, .drained group futures ∈ history ∧ f ∈ futures) ∨
    ∃ futures, .closed futures ∈ history ∧ f ∈ futures

/-- The call of a future failed with an outcome before it was placed. -/
def Failed (history : List Event) (f : FutureId) (outcome : Outcome) : Prop :=
  (∃ panic context, .opened f (some panic) context ∈ history ∧
    outcome = .error (.ofPanic panic)) ∨
  (∃ e, (.faulted f e ∈ history ∨ .failed f e ∈ history) ∧ outcome = .error e) ∨
  ∃ d e, .notified d (.error e) (some f) ∈ history ∧ outcome = .error e

def Origin (history : List Event) (f : FutureId) (outcome : Outcome) (below : List (Frame W)) :
    Prop :=
  (.ended f outcome ∈ history ∧ OnLane history f below) ∨
  (Refused history f ∧ outcome = refusal) ∨
  Failed history f outcome

/-- Whoever completes the future holds a share of the count of work in flight, or its
caller is still waiting for it. -/
def Covered (history : List Event) (f : FutureId) (below : List (Frame W)) : Prop :=
  Guarded below ∨ Replied history f below

def Asker.Grounded (history : List Event) : Asker → Prop
  | client f => .counted f true ∈ history
  | nobody => True

def Placing.Grounded (history : List Event) (below : List (Frame W)) (p : Placing W) : Prop :=
  match p.asker with
  | .client f => f = p.future
  | .nobody => Guarded below ∨ Spare history p.future

def Stopping.Grounded (history : List Event) (stopping : Stopping W) : Prop :=
  stopping.shutsDown = true → .shutdownAsked ∈ history

def Site.Grounded (history : List Event) (below : List (Frame W)) : Site W → Prop
  | lane call => Replied history call.future below
  | omitted lookup => ∀ f, lookup.next.call? = some f → Replied history f below
  | expressions lookup _ => ∀ f, lookup.next.call? = some f → Replied history f below
  | listener stopping => stopping.Grounded history
  | _ => True

def Role.Grounded (history : List Event) (below : List (Frame W)) : Role W → Prop
  | task job => OnLane history job.future below
  | query _ site => site.Grounded history below
  | handler stopping => stopping.Grounded history
  | _ => True

def Reply.Grounded (history : List Event) (below : List (Frame W)) : Reply → Prop
  | future f => .created f ∈ history ∨
      ∃ fault behalf, .opened f fault behalf ∈ history ∧ behalf ⊆ context below
  | placed f result => result = .ok () ∨ result = .error .shutDown → .counted f true ∈ history
  | _ => True

def Frame.Grounded (history : List Event) (below : List (Frame W)) : Frame W → Prop
  | running role _ | waiting role _ => role.Grounded history below
  | deliver reply => reply.Grounded history below
  | claim p => p.Grounded history below
  | enter p => p.Grounded history below ∧
      ∃ behalf, .claimed p.future p.asker.isClient behalf ∈ history ∧ behalf ⊆ context below
  | push _ asker | checkOpen _ _ asker | locate _ _ asker | append _ _ _ asker
  | submit _ asker => asker.Grounded history
  | drain _ => ∃ futures, .closed futures ∈ history
  | settle f outcome => Origin history f outcome below ∧ Covered history f below
  | announce f => (∃ outcome, Origin history f outcome below) ∧ Covered history f below
  | query _ site => site.Grounded history below
  | track call _ => Replied history call.future below
  | shutdown => .shutdownAsked ∈ history ∨ .handleDropped true ∈ history
  | awaitIdle => ∃ worker, .shutdown worker ∈ history
  | close => .shutdown true ∈ history ∨ .idle ∈ history
  | takeHandlers shutsDown => shutsDown = true → .shutdownAsked ∈ history
  | readListeners stopping | runHandlers stopping | askListeners stopping
  | openStop _ _ _ stopping | awaitListeners stopping => stopping.Grounded history
  | _ => True

/-- A refusal shows in the history of the job. -/
theorem refused_iff {history : List Event} {f : FutureId} :
    Refused history f ↔ 0 < tally (Event.clears f) history + tally (Event.refuses f) history := by
  constructor
  · rintro (mem | mem | ⟨group, futures, mem, among⟩ | ⟨futures, mem, among⟩)
    · have refuses := tally_pos_of_mem (n := Event.refuses f) mem (one_self f)
      omega
    · have refuses := tally_pos_of_mem (n := Event.refuses f) mem (one_self f)
      omega
    all_goals
      have := le_tally (n := Event.clears f) mem
      have := List.count_pos_iff.2 among
      rw [Event.clears] at *
      omega
  · intro h
    by_cases clears : 0 < tally (Event.clears f) history
    · obtain ⟨e, mem, pos⟩ := tally_pos clears
      cases e with
      | drained group futures => exact .inr (.inr (.inl ⟨group, futures, mem, List.count_pos_iff.1 pos⟩))
      | closed futures => exact .inr (.inr (.inr ⟨futures, mem, List.count_pos_iff.1 pos⟩))
      | _ => cases pos
    · have refuses : 0 < tally (Event.refuses f) history := by omega
      obtain ⟨e, mem, pos⟩ := tally_pos refuses
      cases e with
      | refused g => exact .inl (one_pos pos ▸ mem)
      | stranded g => exact .inr (.inl (one_pos pos ▸ mem))
      | _ => cases pos

theorem Refused.append {a b : List Event} {f : FutureId} (h : Refused a f) :
    Refused (a ++ b) f := by
  rw [refused_iff] at h ⊢
  rw [tally_append, tally_append]
  omega

/-- A failure shows in the history of the call. -/
theorem Failed.pos {history : List Event} {f : FutureId} {outcome : Outcome}
    (h : Failed history f outcome) :
    0 < tally (Event.fails f) history + tally (Event.faults f) history := by
  rcases h with ⟨panic, context, mem, _⟩ | ⟨e, mem | mem, _⟩ | ⟨d, e, mem, _⟩
  · have faults := tally_pos_of_mem (n := Event.faults f) mem (one_self f)
    omega
  · have fails := tally_pos_of_mem (n := Event.fails f) mem (one_self f)
    omega
  · have fails := tally_pos_of_mem (n := Event.fails f) mem (one_self f)
    omega
  · have fails := tally_pos_of_mem (n := Event.fails f) mem (one_self f)
    omega

/-- Only calls fail without a unit of their own. -/
theorem State.Trace.opened_of_failed {client : Client W} {workers : Nat} {world : W}
    {kept : List ObjectId} {threads : List (Code W)} {s : State W} {history : List Event}
    (trace : Trace client (State.start workers world kept threads) history s) {f : FutureId}
    {outcome : Outcome} (failed : Failed history f outcome) :
    ∃ fault context, .opened f fault context ∈ history := by
  have pos := failed.pos
  have law := trace.call_law f
  simp only [tally_add] at law
  obtain ⟨e, mem, opens⟩ := tally_pos (show 0 < tally (Event.opens f) history by omega)
  obtain ⟨fault, context, rfl⟩ := Event.of_opens opens
  exact ⟨fault, context, mem⟩

theorem Failed.append {a b : List Event} {f : FutureId} {outcome : Outcome}
    (h : Failed a f outcome) : Failed (a ++ b) f outcome := by
  rcases h with ⟨panic, context, mem, eq⟩ | ⟨error, mem | mem, eq⟩ | ⟨d, error, mem, eq⟩
  · exact .inl ⟨panic, context, List.mem_append_left _ mem, eq⟩
  · exact .inr (.inl ⟨error, .inl (List.mem_append_left _ mem), eq⟩)
  · exact .inr (.inl ⟨error, .inr (List.mem_append_left _ mem), eq⟩)
  · exact .inr (.inr ⟨d, error, List.mem_append_left _ mem, eq⟩)

/-! ## Reasons last -/

section Lasting

variable {history : List Event} {e : Event} {f : FutureId} {below : List (Frame W)}

theorem Replied.mono (h : Replied history f below) : Replied (history ++ [e]) f below := by
  obtain ⟨mem, fault, context, opened⟩ := h
  exact ⟨mem, fault, context, List.mem_append_left _ opened⟩

theorem Spare.mono (h : Spare history f) : Spare (history ++ [e]) f := by
  rcases h with ⟨call, mem⟩ | mem
  · exact .inl ⟨call, List.mem_append_left _ mem⟩
  · exact .inr (List.mem_append_left _ mem)

theorem OnLane.mono (h : OnLane history f below) : OnLane (history ++ [e]) f below := by
  rcases h with mem | ⟨receiver, group, mem, held⟩
  · exact .inl (List.mem_append_left _ mem)
  · exact .inr ⟨receiver, group, List.mem_append_left _ mem, held⟩

theorem OnLane.above (h : OnLane history f below) (above : List (Frame W)) :
    OnLane history f (above ++ below) := by
  rcases h with mem | ⟨receiver, group, mem, held⟩
  · exact .inl mem
  · exact .inr ⟨receiver, group, mem, List.mem_append_right _ held⟩

theorem Failed.mono {outcome : Outcome} (h : Failed history f outcome) :
    Failed (history ++ [e]) f outcome := h.append

theorem Origin.mono {outcome : Outcome} (h : Origin history f outcome below) :
    Origin (history ++ [e]) f outcome below := by
  rcases h with ⟨mem, lane⟩ | ⟨refused, eq⟩ | failed
  · exact .inl ⟨List.mem_append_left _ mem, lane.mono⟩
  · exact .inr (.inl ⟨refused.append, eq⟩)
  · exact .inr (.inr failed.mono)

theorem Covered.mono (h : Covered history f below) : Covered (history ++ [e]) f below :=
  h.imp_right Replied.mono

theorem Asker.Grounded.mono {asker : Asker} (h : asker.Grounded history) :
    asker.Grounded (history ++ [e]) := by
  cases asker with
  | client f => exact List.mem_append_left _ h
  | nobody => trivial

theorem Placing.Grounded.mono {p : Placing W} (h : p.Grounded history below) :
    p.Grounded (history ++ [e]) below := by
  unfold Placing.Grounded at h ⊢
  split
  · rename_i eq
    rw [eq] at h
    exact h
  · rename_i eq
    rw [eq] at h
    exact h.imp_right Spare.mono

theorem Stopping.Grounded.mono {stopping : Stopping W} (h : stopping.Grounded history) :
    stopping.Grounded (history ++ [e]) := fun shutsDown => List.mem_append_left _ (h shutsDown)

theorem Site.Grounded.mono {site : Site W} (h : site.Grounded history below) :
    site.Grounded (history ++ [e]) below := by
  cases site with
  | lane call => exact Replied.mono h
  | omitted lookup | expressions lookup pending => exact fun f call => (h f call).mono
  | listener stopping => exact Stopping.Grounded.mono h
  | _ => trivial

theorem Role.Grounded.mono {role : Role W} (h : role.Grounded history below) :
    role.Grounded (history ++ [e]) below := by
  cases role with
  | task job => exact OnLane.mono h
  | query object site => exact Site.Grounded.mono h
  | handler stopping => exact Stopping.Grounded.mono h
  | _ => trivial

theorem Reply.Grounded.mono {reply : Reply} (h : reply.Grounded history below) :
    reply.Grounded (history ++ [e]) below := by
  cases reply with
  | future f =>
    rcases h with mem | ⟨fault, behalf, mem, sub⟩
    · exact .inl (List.mem_append_left _ mem)
    · exact .inr ⟨fault, behalf, List.mem_append_left _ mem, sub⟩
  | placed f result => exact fun counted => List.mem_append_left _ (h counted)
  | _ => trivial

theorem Frame.Grounded.mono {frame : Frame W} (h : frame.Grounded history below) :
    frame.Grounded (history ++ [e]) below := by
  cases frame with
  | running role code | waiting role next => exact Role.Grounded.mono h
  | deliver reply => exact Reply.Grounded.mono h
  | claim p => exact Placing.Grounded.mono h
  | enter p =>
    obtain ⟨grounded, behalf, mem, sub⟩ := h
    exact ⟨grounded.mono, behalf, List.mem_append_left _ mem, sub⟩
  | push job asker | checkOpen receiver job asker | locate receiver job asker
  | append receiver group job asker | submit group asker => exact Asker.Grounded.mono h
  | drain group =>
    obtain ⟨futures, mem⟩ := h
    exact ⟨futures, List.mem_append_left _ mem⟩
  | settle f outcome => exact ⟨h.1.mono, h.2.mono⟩
  | announce f =>
    obtain ⟨⟨outcome, origin⟩, covered⟩ := h
    exact ⟨⟨outcome, origin.mono⟩, covered.mono⟩
  | query object site => exact Site.Grounded.mono h
  | track call lane => exact Replied.mono h
  | awaitIdle =>
    obtain ⟨worker, mem⟩ := h
    exact ⟨worker, List.mem_append_left _ mem⟩
  | shutdown | close => exact h.imp (List.mem_append_left _) (List.mem_append_left _)
  | takeHandlers shutsDown => exact fun asked => List.mem_append_left _ (h asked)
  | readListeners stopping | runHandlers stopping | askListeners stopping
  | openStop listener lane metadata stopping | awaitListeners stopping =>
    exact Stopping.Grounded.mono h
  | _ => trivial

end Lasting
end Strands
