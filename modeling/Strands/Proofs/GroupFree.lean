/-
Steps that have to do with no group.

`Shared.adopt` gives a state the groups, the table and the entries of the run queue of
another.  A frame that is `isBlind` has to do with none of these, except that it may see how
many entries there are, so its steps and what is told of them are the same whether they are
taken before or after: `Frame.step_adopt` and `Frame.event_adopt`.  Nor does it bring in a
frame that has a group in hand (`Frame.step_groupless`).
-/
import Strands.Proofs.Apart

namespace Strands

variable {W : Type}

def Shared.adopt (s t : Shared W) : Shared W :=
  { s with queue := { s.queue with items := t.queue.items }, groups := t.groups, table := t.table }

def Progress.adopt (p : Progress W) (t : Shared W) : Progress W :=
  { p with shared := p.shared.adopt t }

def Code.isBlind : Code W → Bool
  | ask .sweep _ | ask .groupCount _ | await _ _ => false
  | _ => true

def Frame.isBlind : Frame W → Bool
  | running _ code => code.isBlind
  | push _ _ | locate _ _ _ | append _ _ _ _ | submit _ _ | drain _ | poll | turn _ | endTurn _
  | close => false
  | _ => true

section Steps

variable {client : Client W} {s t : Shared W}

theorem Site.answered_adopt (object : ObjectId) (type : ObjectType W) (site : Site W) :
    site.answered (s.adopt t) object type = (site.answered s object type).adopt t := by
  cases site <;> rfl

theorem Role.ended_adopt (role : Role W) (result : Except Panic Outcome) :
    role.ended client (s.adopt t) result = (role.ended client s result).adopt t := by
  cases role with
  | query object site =>
    cases result with
    | ok outcome => exact site.answered_adopt object _
    | error panic => rfl
  | _ => rfl

theorem Request.serve_adopt (long : t.queue.items.length = s.queue.items.length) (sight : Sight)
    (isAlive : ObjectId → Bool) (request : Request) (notSweep : request ≠ .sweep)
    (notCount : request ≠ .groupCount) :
    request.serve client { sight with isAlive } (s.adopt t) =
      (request.serve client sight s).adopt t := by
  cases request with
  | queued => simp [serve, Progress.adopt, Shared.gauges, Shared.adopt, long]
  | takeHandle =>
    by_cases gone : s.handles = 0 <;> simp [serve, Progress.adopt, Shared.adopt, gone]
  | sweep => exact absurd rfl notSweep
  | groupCount => exact absurd rfl notCount
  | _ => rfl

theorem Code.step_adopt (long : t.queue.items.length = s.queue.items.length) (sight : Sight)
    (isAlive : ObjectId → Bool) (late : Bool) (role : Role W) {code : Code W}
    (blind : code.isBlind = true) :
    code.step client { sight with isAlive } late (s.adopt t) role =
      (code.step client sight late s role).map (·.adopt t) := by
  cases code with
  | finish outcome | panic payload => exact congrArg some (role.ended_adopt _)
  | ask request next =>
    have served : request.serve client { sight with isAlive } (s.adopt t) =
        (request.serve client sight s).adopt t :=
      request.serve_adopt long sight isAlive (by rintro rfl; cases blind)
        (by rintro rfl; cases blind)
    simp only [step, served]
    rfl
  | await ready next => cases blind
  | awaitAtMost milliseconds ready next =>
    show (if ready s.world then _ else if late then _ else _) = Option.map _
      (if ready s.world then _ else if late then _ else _)
    split
    · rfl
    · split <;> rfl
  | _ => rfl

/-- A blind frame takes the same step whatever groups, table and entries there are. -/
theorem Frame.step_adopt (long : t.queue.items.length = s.queue.items.length) (sight : Sight)
    (isAlive : ObjectId → Bool) (choice : Choice) {frame : Frame W}
    (blind : frame.isBlind = true) :
    frame.step client { sight with isAlive } choice (s.adopt t) =
      (frame.step client sight choice s).map (·.adopt t) := by
  cases frame with
  | running role code => exact Code.step_adopt long sight isAlive choice.late role blind
  | deliver reply => cases reply <;> rfl
  | claim p =>
    simp only [step, claimStep, Shared.adopt]
    split <;> rfl
  | settle future outcome =>
    simp only [step, settleStep, Shared.adopt]
    split <;> rfl
  | ring | ringAll =>
    simp only [step, ringStep, Shared.adopt]
    split <;> rfl
  | openCall call metadata fault => rfl
  | evaluate r =>
    simp only [step, evaluateStep]
    split <;> rfl
  | lockBell =>
    simp only [step, lockBellStep, Shared.adopt]
    split <;> rfl
  | recheckQueue =>
    -- All that is looked at is whether the queue is empty.
    have same : t.queue.isEmpty = s.queue.isEmpty := by
      rw [RunQueue.isEmpty, RunQueue.isEmpty, Bool.eq_iff_iff, List.isEmpty_iff_length_eq_zero,
        List.isEmpty_iff_length_eq_zero, long]
    have adopted : (s.adopt t).queue.isEmpty = t.queue.isEmpty := rfl
    simp only [step, recheckQueueStep, adopted, same]
    cases s.queue.isEmpty <;> rfl
  | recheckFlag =>
    have adopted : (s.adopt t).flag = s.flag := rfl
    simp only [step, recheckFlagStep, adopted]
    cases s.flag <;> rfl
  | settleDown =>
    have adopted : (s.adopt t).bell = s.bell := rfl
    simp only [step, settleDownStep, adopted]
    cases s.bell.rung <;> rfl
  | rest =>
    have adopted : (s.adopt t).bell = s.bell := rfl
    simp only [step, restStep, adopted]
    cases s.bell.resting.contains sight.me
    · rfl
    · cases choice.late <;> rfl
  | getUp =>
    simp only [step, getUpStep, Shared.adopt]
    split <;> rfl
  | awaitIdle =>
    by_cases idle : s.inFlight = 0 <;>
      simp [step, awaitIdleStep, Shared.adopt, Progress.adopt, idle]
  | lockCrew =>
    simp only [step, lockCrewStep, Shared.adopt]
    split <;> rfl
  | join workers =>
    cases workers with
    | nil => rfl
    | cons first others =>
      simp only [step, joinStep]
      split <;> rfl
  | awaitListeners stopping =>
    simp only [step, awaitListenersStep, Shared.adopt]
    split
    · rfl
    · split <;> rfl
  | awaitFuture future =>
    simp only [step, awaitFutureStep, Shared.adopt]
    split <;> rfl
  | awaitFutureAtMost future milliseconds =>
    simp only [step, awaitFutureStep, Shared.adopt]
    split
    · rfl
    · split <;> rfl
  | push job asker | locate receiver job asker | append receiver group job asker
  | submit group asker | drain group | poll | turn group | endTurn group | close => cases blind
  | _ => rfl

/-- A blind frame leaves the groups, the table and the entries of the run queue alone. -/
theorem Frame.step_adopt_self {sight : Sight} {choice : Choice} {frame : Frame W}
    {p : Progress W} (blind : frame.isBlind = true)
    (taken : frame.step client sight choice s = some p) : p.shared.adopt s = p.shared := by
  have same : frame.step client { sight with isAlive := sight.isAlive } choice (s.adopt s) =
      (frame.step client sight choice s).map (·.adopt s) :=
    Frame.step_adopt rfl sight sight.isAlive choice blind
  have self : frame.step client { sight with isAlive := sight.isAlive } choice (s.adopt s) =
      some p := taken
  rw [self, taken] at same
  exact (congrArg Progress.shared (Option.some.inj same)).symm

theorem Frame.LeadsTo.groupless {isOpen : Bool} {frame next : Frame W}
    (leads : frame.LeadsTo isOpen next) (blind : frame.isBlind = true) : next.group? = none := by
  cases leads with
  | code leaves => cases next <;> first | rfl | cases leaves
  | _ => first | rfl | cases blind

theorem Frame.step_groupless {sight : Sight} {choice : Choice} {frame : Frame W}
    {p : Progress W} (blind : frame.isBlind = true)
    (taken : frame.step client sight choice s = some p) :
    ∀ next ∈ p.frames, next.group? = none := fun next mem =>
  (step_leads taken next mem).groupless blind

theorem Frame.event_adopt (worker : Bool) {below below' : List (Frame W)} {frame : Frame W}
    (blind : frame.isBlind = true) (same : context below = context below') :
    frame.event client worker (s.adopt t) below = frame.event client worker s below' := by
  cases frame with
  | claim p => simp only [event, same]; rfl
  | openCall call metadata fault => simp only [event, same]; rfl
  | push job asker | locate receiver job asker | append receiver group job asker
  | submit group asker | drain group | poll | turn group | endTurn group | close => cases blind
  | _ => rfl

end Steps
end Strands
