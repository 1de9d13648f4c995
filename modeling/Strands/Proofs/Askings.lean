/-
Steps that do not depend on who was asked.

The record of who was asked for its type is read by nobody but the objects that are asked.  So
a step is the same however often an object was asked that answers each question alike
(`stackStep_sameBut`).
-/
import Strands.Proofs.Move

namespace Strands

variable {W : Type}

def Shared.withQueries (s : Shared W) (queries : List ObjectId) : Shared W := { s with queries }

def Progress.withQueries (p : Progress W) (queries : List ObjectId) : Progress W :=
  { p with shared := p.shared.withQueries queries }

def Frame.isQuery : Frame W → Bool
  | query _ _ => true
  | _ => false

section Steps

variable {client : Client W} {s : Shared W} (queries : List ObjectId)

theorem Site.answered_withQueries (object : ObjectId) (type : ObjectType W) (site : Site W) :
    site.answered (s.withQueries queries) object type =
      (site.answered s object type).withQueries queries := by
  cases site <;> rfl

theorem Role.ended_withQueries (role : Role W) (result : Except Panic Outcome) :
    role.ended client (s.withQueries queries) result =
      (role.ended client s result).withQueries queries := by
  cases role with
  | query object site =>
    cases result with
    | ok outcome => exact site.answered_withQueries queries object _
    | error panic => rfl
  | _ => rfl

theorem Request.serve_withQueries (sight : Sight) (request : Request) :
    request.serve client sight (s.withQueries queries) =
      (request.serve client sight s).withQueries queries := by
  cases request with
  | takeHandle =>
    by_cases gone : s.handles = 0 <;>
      simp [serve, Progress.withQueries, Shared.withQueries, gone]
  | _ => rfl

theorem Code.step_withQueries (sight : Sight) (late : Bool) (role : Role W) (code : Code W) :
    code.step client sight late (s.withQueries queries) role =
      (code.step client sight late s role).map (·.withQueries queries) := by
  cases code with
  | finish outcome | panic payload => exact congrArg some (role.ended_withQueries queries _)
  | ask request next =>
    simp only [step, request.serve_withQueries]
    rfl
  | await ready next =>
    show (if ready s.gauges s.world then _ else _) = Option.map _
      (if ready s.gauges s.world then _ else _)
    split <;> rfl
  | awaitAtMost milliseconds ready next =>
    show (if ready s.world then _ else if late then _ else _) = Option.map _
      (if ready s.world then _ else if late then _ else _)
    split
    · rfl
    · split <;> rfl
  | _ => rfl

/-- A frame that asks nobody takes the same step whoever was asked. -/
theorem Frame.step_withQueries (sight : Sight) (choice : Choice) {frame : Frame W}
    (notQuery : frame.isQuery = false) :
    frame.step client sight choice (s.withQueries queries) =
      (frame.step client sight choice s).map (·.withQueries queries) := by
  cases frame with
  | running role code => exact code.step_withQueries queries sight choice.late role
  | deliver reply => cases reply <;> rfl
  | claim p =>
    simp only [step, claimStep, Shared.withQueries]
    split <;> rfl
  | push job asker | submit group asker =>
    simp only [step, pushStep, submitStep, Shared.withQueries]
    split <;> rfl
  | locate receiver job asker =>
    have located : (s.withQueries queries).locate sight.isAlive receiver =
        ((s.locate sight.isAlive receiver).1,
          (s.locate sight.isAlive receiver).2.withQueries queries) := by
      unfold Shared.locate
      simp only [Shared.withQueries]
      split <;> rfl
    simp only [step, locateStep, located]
    rfl
  | append receiver group job asker | drain group | turn group | endTurn group =>
    simp only [step, appendStep, drainStep, turnStep, endTurnStep, Shared.withQueries]
    split <;> rfl
  | settle future outcome =>
    simp only [step, settleStep, Shared.withQueries]
    split <;> rfl
  | ring | ringAll | lockBell | getUp | lockCrew =>
    simp only [step, ringStep, lockBellStep, getUpStep, lockCrewStep, Shared.withQueries]
    split <;> rfl
  | evaluate r =>
    simp only [step, evaluateStep]
    split <;> rfl
  | poll =>
    simp only [step, pollStep, Shared.withQueries]
    split <;> rfl
  | recheckQueue =>
    have same : (s.withQueries queries).queue = s.queue := rfl
    simp only [step, recheckQueueStep, same]
    cases s.queue.isEmpty <;> rfl
  | recheckFlag =>
    have same : (s.withQueries queries).flag = s.flag := rfl
    simp only [step, recheckFlagStep, same]
    cases s.flag <;> rfl
  | settleDown =>
    have same : (s.withQueries queries).bell = s.bell := rfl
    simp only [step, settleDownStep, same]
    cases s.bell.rung <;> rfl
  | awaitIdle =>
    by_cases idle : s.inFlight = 0 <;>
      simp [step, awaitIdleStep, Shared.withQueries, Progress.withQueries, idle]
  | rest =>
    have same : (s.withQueries queries).bell = s.bell := rfl
    simp only [step, restStep, same]
    cases s.bell.resting.contains sight.me
    · rfl
    · cases choice.late <;> rfl
  | join workers =>
    cases workers with
    | nil => rfl
    | cons first others =>
      simp only [step, joinStep]
      split <;> rfl
  | awaitListeners stopping =>
    simp only [step, awaitListenersStep, Shared.withQueries]
    split
    · rfl
    · split <;> rfl
  | awaitFuture future | awaitFutureAtMost future milliseconds =>
    simp only [step, awaitFutureStep, Shared.withQueries]
    split
    · rfl
    · split <;> rfl
  | query object site => cases notQuery
  | _ => rfl

theorem stackStep_withQueries (sight : Sight) (choice : Choice) {stack : List (Frame W)}
    (notQuery : ∀ frame ∈ stack.head?, frame.isQuery = false) :
    stackStep client sight choice (s.withQueries queries) stack =
      (stackStep client sight choice s stack).map (·.withQueries queries) := by
  unfold stackStep
  split
  · rfl
  · rename_i reply role next below
    cases reply <;> rfl
  · rfl
  · rename_i frame below _ _
    rw [Frame.step_withQueries queries sight choice (notQuery frame rfl)]
    cases frame.step client sight choice s <;> rfl

theorem Frame.event_withQueries (worker : Bool) (below : List (Frame W)) (frame : Frame W) :
    frame.event client worker (s.withQueries queries) below =
      frame.event client worker s below := by
  cases frame <;> rfl

end Steps

/-! ## Objects that answer alike -/

/-- All that is shared is the same, except that an object may have been asked more often in one
state than in the other. -/
structure Shared.SameBut (object : Option ObjectId) (s t : Shared W) : Prop where
  same : s.withQueries t.queries = t
  asked : ∀ other, object ≠ some other → t.timesAsked other = s.timesAsked other

/-- The same progress, except for how often an object was asked. -/
structure Progress.SameBut (object : Option ObjectId) (p q : Progress W) : Prop where
  shared : p.shared.SameBut object q.shared
  frames : q.frames = p.frames
  spawned : q.spawned = p.spawned

section Alike

variable {client : Client W} {object : Option ObjectId} {s t : Shared W} {sight : Sight}
  {choice : Choice} {p : Progress W}

theorem Shared.SameBut.refl (s : Shared W) : SameBut object s s := ⟨rfl, fun _ _ => rfl⟩

theorem Shared.SameBut.symm (same : s.SameBut object t) : t.SameBut object s where
  same := by
    rw [← same.same]
    rfl
  asked other different := (same.asked other different).symm

theorem Shared.SameBut.world (same : s.SameBut object t) : t.world = s.world := by
  rw [← same.same]
  rfl

theorem Shared.SameBut.act (same : s.SameBut object t) (update : W → W) :
    Shared.SameBut object { s with world := update s.world }
      { t with world := update t.world } where
  same := by
    rw [← same.same]
    rfl
  asked := same.asked

theorem Shared.SameBut.futures (same : s.SameBut object t) : t.futures = s.futures := by
  rw [← same.same]
  rfl

theorem Shared.SameBut.addFuture (same : s.SameBut object t) (spec : FutureSpec)
    (callback : Callback W) :
    (s.addFuture spec callback).SameBut object (t.addFuture spec callback) where
  same := by
    rw [← same.same]
    rfl
  asked := same.asked

/-- The object is asked in one state alone. -/
theorem Shared.SameBut.ask {asked : ObjectId} (same : s.SameBut (some asked) t) :
    Shared.SameBut (some asked) { s with queries := s.queries ++ [asked] } t where
  same := by
    rw [← same.same]
    rfl
  asked other different := by
    rw [same.asked other different, Shared.timesAsked, Shared.timesAsked, List.count_append,
      List.count_singleton, if_neg, Nat.add_zero]
    rintro eq
    exact different (congrArg some (beq_iff_eq.1 eq))

theorem queryStep_sameBut (alike : ∀ o, object = some o → ∀ m n, client.consult o m =
    client.consult o n) (same : s.SameBut object t) (asked : ObjectId) (site : Site W) :
    (queryStep client s asked site).SameBut object (queryStep client t asked site) := by
  refine ⟨⟨?_, fun other different => ?_⟩, ?_, rfl⟩
  · rw [← same.same]
    rfl
  · have before := same.asked other different
    simp only [Shared.timesAsked, queryStep, List.count_append] at before ⊢
    rw [before]
  · -- The object answers alike, and any other was asked as often.
    have answer : client.consult asked (t.timesAsked asked) =
        client.consult asked (s.timesAsked asked) := by
      by_cases own : object = some asked
      · exact alike asked own _ _
      · rw [same.asked asked own]
    simp only [queryStep, answer]

/-- A stack takes the same step however often the object was asked. -/
theorem stackStep_sameBut (alike : ∀ o, object = some o → ∀ m n, client.consult o m =
    client.consult o n) (same : s.SameBut object t) {stack : List (Frame W)}
    (taken : stackStep client sight choice s stack = some p) :
    ∃ q, stackStep client sight choice t stack = some q ∧ p.SameBut object q := by
  by_cases query : ∃ asked site below, stack = .query asked site :: below
  · obtain ⟨asked, site, below, rfl⟩ := query
    obtain ⟨shared, frames, spawned⟩ := queryStep_sameBut alike same asked site
    cases taken
    exact ⟨_, rfl, shared, congrArg (· ++ below) frames, spawned⟩
  · have notQuery : ∀ frame ∈ stack.head?, frame.isQuery = false := by
      rintro frame mem
      obtain ⟨below, rfl⟩ := List.head?_eq_some_iff.1 mem
      cases frame with
      | query asked site => exact absurd ⟨asked, site, below, rfl⟩ query
      | _ => rfl
    have kept : p.shared.queries = s.queries := by
      have self : stackStep client sight choice (s.withQueries s.queries) stack = _ :=
        stackStep_withQueries s.queries sight choice notQuery
      rw [show s.withQueries s.queries = s from rfl, taken] at self
      exact congrArg (fun q : Progress W => q.shared.queries) (Option.some.inj self)
    refine ⟨p.withQueries t.queries, ?_, ⟨rfl, fun other different => ?_⟩, rfl, rfl⟩
    · rw [← same.same, stackStep_withQueries t.queries sight choice notQuery, taken]
      rfl
    · show t.queries.count other = p.shared.queries.count other
      rw [kept]
      exact same.asked other different

theorem stackEvent_sameBut (same : s.SameBut object t) (worker : Bool) (stack : List (Frame W)) :
    stackEvent client worker t stack = stackEvent client worker s stack := by
  rw [← same.same]
  unfold stackEvent
  split
  · rfl
  · rfl
  · exact Frame.event_withQueries _ worker _ _

end Alike
end Strands
