/-
Steps that have to do with no group and no worker's round.

A frame is `isApart` if it has no group in hand and is not a worker's, on its round from one
entry of the run queue to the next, and `isAside` if it does not look for a group either.
`Frame.step_aside` says that frames that are aside leave such frames, but for those that take
groups off the queue or find it open.  A thread that is no worker never goes on a round:
`State.Trace.worker_of_isOnRound`.  Nor does anything but a queue found open lead to the search
for a group: `Frame.step_unlocated`.
-/
import Strands.Proofs.Leads
import Strands.Proofs.Plain

namespace Strands

variable {W : Type}

namespace Frame

def isOnRound : Frame W → Bool
  | poll | checkFlag | lockBell | recheckQueue | recheckFlag | settleDown | rest | getUp | turn _
  | endTurn _ => true
  | _ => false

def group? : Frame W → Option GroupId
  | append _ group _ _ | submit group _ | drain group | turn group | endTurn group => some group
  | _ => none

def isApart (frame : Frame W) : Bool := !frame.isOnRound && frame.group?.isNone

def isLocate : Frame W → Bool
  | locate _ _ _ => true
  | _ => false

/-- Frames that are apart, and do not look for a group either. -/
def isAside (frame : Frame W) : Bool := frame.isApart && !frame.isLocate

theorem isApart_of_isAside {frame : Frame W} (aside : frame.isAside = true) :
    frame.isApart = true := by
  rw [isAside, Bool.and_eq_true] at aside
  exact aside.1

end Frame

def Aside (frames : List (Frame W)) : Prop := ∀ frame ∈ frames, frame.isAside = true

@[simp] theorem aside_nil : Aside ([] : List (Frame W)) := fun _ mem => by cases mem

@[simp] theorem aside_cons {frame : Frame W} {frames : List (Frame W)} :
    Aside (frame :: frames) ↔ frame.isAside = true ∧ Aside frames := List.forall_mem_cons

@[simp] theorem aside_append {a b : List (Frame W)} : Aside (a ++ b) ↔ Aside a ∧ Aside b :=
  List.forall_mem_append

theorem Frame.groupless_of_isApart {frame : Frame W} (apart : frame.isApart = true) :
    frame.group? = none := by
  simp only [isApart, Bool.and_eq_true, Option.isNone_iff_eq_none] at apart
  exact apart.2

theorem groupless_of_aside {frames : List (Frame W)} (aside : Aside frames) :
    ∀ frame ∈ frames, frame.group? = none := fun frame mem =>
  Frame.groupless_of_isApart (Frame.isApart_of_isAside (aside frame mem))

section Refusals

attribute [local simp] Frame.isAside Frame.isApart Frame.isLocate Frame.isOnRound Frame.group?

@[simp] theorem Asker.aside_answer (asker : Asker) (result : Except ScheduleError Unit) :
    Aside (asker.answer result : List (Frame W)) := by
  cases asker <;> simp [answer]

@[simp] theorem Job.aside_refuse (job : Job W) : Aside job.refuse := by simp [refuse]

@[simp] theorem Job.aside_refuse_all (jobs : List (Job W)) :
    Aside (jobs.flatMap Job.refuse) := by
  intro frame mem
  obtain ⟨job, _, inJob⟩ := List.mem_flatMap.1 mem
  exact job.aside_refuse frame inJob

end Refusals

namespace Frame.LeadsTo

variable {isOpen : Bool} {frame next : Frame W}

theorem isAside (leads : frame.LeadsTo isOpen next) (aside : frame.isAside = true)
    (notClose : frame ≠ .close)
    (refused : ∀ r job asker, frame = .checkOpen r job asker → isOpen = false) :
    next.isAside = true := by
  cases leads with
  | code leaves => cases next <;> first | rfl | cases leaves
  | locate isOpen => cases isOpen.symm.trans (refused _ _ _ rfl)
  | drainClosed => exact absurd rfl notClose
  | _ => first | rfl | cases aside

/-- Frames that are not on a round do not leave frames that are. -/
theorem isOnRound (leads : frame.LeadsTo isOpen next) (off : frame.isOnRound = false) :
    next.isOnRound = false := by
  cases leads with
  | code leaves => cases next <;> first | rfl | cases leaves
  | _ => first | rfl | cases off

theorem isLocate (leads : frame.LeadsTo false next) : next.isLocate = false := by
  cases leads with
  | code leaves => cases next <;> first | rfl | cases leaves
  | locate isOpen => cases isOpen
  | _ => rfl

end Frame.LeadsTo

namespace Frame

variable {client : Client W} {sight : Sight} {choice : Choice} {s : Shared W} {frame : Frame W}
  {p : Progress W}

theorem step_aside (aside : frame.isAside = true) (notClose : frame ≠ .close)
    (refused : ∀ r job asker, frame = .checkOpen r job asker → s.queue.closed = true)
    (taken : frame.step client sight choice s = some p) : Aside p.frames := fun next mem =>
  (step_leads taken next mem).isAside aside notClose fun r job asker eq => by
    rw [refused r job asker eq]
    rfl

theorem step_notOnRound (off : frame.isOnRound = false)
    (taken : frame.step client sight choice s = some p) :
    ∀ next ∈ p.frames, next.isOnRound = false := fun next mem =>
  (step_leads taken next mem).isOnRound off

theorem step_unlocated (closed : s.queue.closed = true)
    (taken : frame.step client sight choice s = some p) :
    ∀ next ∈ p.frames, next.isLocate = false := fun next mem => by
  have leads := step_leads taken next mem
  rw [closed] at leads
  exact leads.isLocate

end Frame

namespace State.Trace

variable {client : Client W} {workers : Nat} {world : W} {kept : List ObjectId}
  {threads : List (Code W)} {s : State W} {history : List Event}

/-- Only workers go on rounds. -/
theorem worker_of_isOnRound
    (trace : Trace client (State.start workers world kept threads) history s) :
    ∀ t ∈ s.threads, ∀ frame ∈ t.stack, frame.isOnRound = true → t.worker = true := by
  refine trace.keeps
    (fun _ s => ∀ t ∈ s.threads, ∀ frame ∈ t.stack, frame.isOnRound = true → t.worker = true) ?_ ?_
  · intro t mem frame inStack onRound
    rcases List.mem_append.1 mem with worker | ofClient
    · rw [(List.mem_replicate.1 worker).2]
      rfl
    · obtain ⟨code, _, rfl⟩ := List.mem_map.1 ofClient
      rw [List.mem_singleton.1 inStack] at onRound
      cases onRound
  · intro before e moment ih t mem frame inStack onRound
    obtain ⟨acted⟩ := step_cases moment.taken
    have move := acted.move
    rw [acted.threads'] at mem
    simp only [List.mem_append, List.mem_cons, List.mem_map] at mem
    have others : ∀ t ∈ acted.before ++ acted.actor :: acted.after, t ∈ moment.s.threads :=
      fun t mem => acted.threads ▸ mem
    rcases mem with (earlier | rfl | later) | ⟨code, _, rfl⟩
    · exact ih t (others t (by simp [earlier])) frame inStack onRound
    · have own := ih acted.actor acted.actor_mem
      rw [acted.stack] at own
      rcases List.mem_append.1 inStack with new | below
      · -- Only a frame on a round could have left it.
        cases top : acted.top with
        | nil => rw [top] at move; cases move
        | cons first above =>
          cases first.isOnRound.eq_false_or_eq_true with
          | inl on => exact own first (by simp [top]) on
          | inr off =>
            rw [top] at move
            generalize acted.progress = p at move new
            cases move with
            | receive reply role next =>
              rw [List.mem_singleton.1 new] at onRound
              cases onRound
            | pass reply held =>
              rw [List.mem_singleton.1 new] at onRound
              cases onRound
            | act taken =>
              rw [Frame.step_notOnRound off taken frame new] at onRound
              cases onRound
      · exact own frame (List.mem_append_right _ below) onRound
    · exact ih t (others t (by simp [later])) frame inStack onRound
    · rw [List.mem_singleton.1 inStack] at onRound
      cases onRound

end State.Trace
end Strands
