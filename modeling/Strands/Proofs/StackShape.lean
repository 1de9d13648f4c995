/-
Which frames may stand on which.

The frames of a stack stand on each other in few ways.  What a frame leaves for later is
`isPatient`; all other frames are innermost.  A job's refusal stands on the frame that
discards the job, what was placed for a call on the frames that let go of the call, and so
on: `Frame.Fits` says for each frame what may stand directly on it, and `Frame.Seated` also
keeps units of work to workers and the wait for work in flight off them.  `Trace.seated`
says that all frames are seated along every trace.

Two things follow.  Only patient frames lie below others (`Trace.patient`).  And nothing is
left for later while jobs are refused unless a refused job is in hand above it
(`not_deferred_of_unguarded`).
-/
import Strands.Proofs.Workers
import Strands.Proofs.Apart

namespace Strands

variable {W : Type}

def Role.isTask : Role W → Bool
  | task _ => true
  | _ => false

namespace Frame

def isPatient : Frame W → Bool
  | waiting _ _ | deliver _ | letGo _ | settle _ _ | announce _ | leave | discard _ | dropHandle
  | drain _ | poll | endTurn _ | raiseFlag | ringAll | lockCrew | askListeners _ => true
  | _ => false

def isDeferred : Frame W → Bool
  | settle _ _ | drain _ | raiseFlag | ringAll | lockCrew => true
  | _ => false

def isRefusing : Frame W → Bool
  | leave | discard _ | drain _ => true
  | _ => false

def isCompleting : Frame W → Bool
  | settle _ _ | announce _ => true
  | _ => false

def isPlacing : Frame W → Bool
  | claim p | enter p => !p.asker.isClient
  | push _ asker | checkOpen _ _ asker | locate _ _ asker | append _ _ _ asker
  | submit _ asker => !asker.isClient
  | ring | drain _ | discard _ | settle _ _ | announce _ => true
  | _ => false

def isDropping : Frame W → Bool
  | dropHandle | shutdown | awaitIdle | close | lockCrew | join _ => true
  | _ => false

/-- Whether a frame may stand directly on these. -/
def Fits (worker : Bool) (frame : Frame W) : List (Frame W) → Prop
  | [] => True
  | .discard job :: _ => frame = .settle job.future refusal ∨ frame = .announce job.future
  | .settle _ _ :: _ | .drain _ :: _ | .raiseFlag :: _ => frame.isRefusing = true
  | .ringAll :: _ => frame = .raiseFlag
  | .lockCrew :: _ => frame = .ringAll
  | .leave :: after =>
    (worker = true ∧ frame.isCompleting = true) ∨
    ((∃ held, frame = .letGo held) ∧ ∃ others, after = .dropHandle :: others) ∨
    (frame.isDropping = true ∧
      ∃ f panic others, after = .settle f (.error (.ofPanic panic)) :: others)
  | .letGo _ :: .leave :: _ => frame.isPlacing = true
  | .dropHandle :: .leave :: _ => False
  | next :: _ => next.isPatient = true

def isOfWorker : Frame W → Bool
  | running role _ | waiting role _ => role.isTask
  | frame => frame.isOnRound

def suits (worker : Bool) : Frame W → Bool
  | awaitIdle => !worker
  | frame => !frame.isOfWorker || worker

structure Seated (worker : Bool) (below : List (Frame W)) (frame : Frame W) : Prop where
  fits : frame.Fits worker below
  suits : frame.suits worker = true

end Frame

def Roomy (worker : Bool) (below : List (Frame W)) : Prop :=
  ∀ frame : Frame W, frame.Fits worker below

section Frames

variable {worker : Bool} {below : List (Frame W)}

def Frame.isRoomy : Frame W → Bool
  | waiting _ _ | deliver _ | announce _ | poll | endTurn _ | askListeners _ => true
  | _ => false

theorem roomy_cons {next : Frame W} (roomy : next.isRoomy = true) :
    Roomy worker (next :: below) := fun frame => by
  cases next <;> first | exact rfl | cases roomy

theorem not_leave_of_roomy (roomy : Roomy worker below) (rest : List (Frame W)) :
    below ≠ .leave :: rest := by
  rintro rfl
  obtain ⟨_, completing⟩ | ⟨⟨_, letsGo⟩, _⟩ | ⟨dropping, _⟩ := roomy .poll
  · cases completing
  · cases letsGo
  · cases dropping

theorem roomy_letGo (roomy : Roomy worker below) (held : Holding) :
    Roomy worker (.letGo held :: below) := fun frame => by
  cases below with
  | nil => rfl
  | cons next rest =>
    cases next with
    | leave => exact absurd rfl (not_leave_of_roomy roomy rest)
    | _ => rfl

theorem roomy_dropHandle (roomy : Roomy worker below) :
    Roomy worker (.dropHandle :: below) := fun frame => by
  cases below with
  | nil => rfl
  | cons next rest =>
    cases next with
    | leave => exact absurd rfl (not_leave_of_roomy roomy rest)
    | _ => rfl

theorem isPatient_of_fits {frame next : Frame W} (fits : frame.Fits worker (next :: below)) :
    next.isPatient = true := by
  cases next <;> first | rfl | exact fits

theorem isPatient_of_seated {frame : Frame W} {above : List (Frame W)}
    (seated : Stacked (Frame.Seated worker) (frame :: above ++ below)) :
    ∀ lower ∈ below, lower.isPatient = true := by
  induction above generalizing frame with
  | nil =>
    induction below generalizing frame with
    | nil => exact fun _ mem => by cases mem
    | cons next rest ih =>
      exact List.forall_mem_cons.2 ⟨isPatient_of_fits seated.1.fits, ih seated.2⟩
  | cons next above ih => exact ih seated.2

/-! ## What steps leave -/

attribute [local simp] Frame.isPlacing

theorem Asker.answer_seated (asker : Asker) (result : Except ScheduleError Unit)
    (roomy : asker.isClient = true → Roomy worker below)
    (rest : Stacked (Frame.Seated worker) below) :
    Stacked (Frame.Seated worker) (asker.answer result ++ below) := by
  cases asker with
  | client f => exact ⟨⟨roomy rfl _, rfl⟩, rest⟩
  | nobody => exact rest

theorem Job.refuse_seated (job : Job W) (fits : (Frame.discard job).Fits worker below)
    (rest : Stacked (Frame.Seated worker) below) :
    Stacked (Frame.Seated worker) (job.refuse ++ below) :=
  ⟨⟨.inl rfl, rfl⟩, ⟨fits, rfl⟩, rest⟩

theorem Job.refuse_all_seated (jobs : List (Job W))
    (fits : ∀ job : Job W, (Frame.discard job).Fits worker below)
    (rest : Stacked (Frame.Seated worker) below) :
    Stacked (Frame.Seated worker) (jobs.flatMap Job.refuse ++ below) := by
  induction jobs with
  | nil => exact rest
  | cons job others ih =>
    rw [List.flatMap_cons, List.append_assoc]
    refine job.refuse_seated ?_ ih
    cases others with
    | nil => exact fits job
    | cons next others => exact rfl

theorem Item.refuse_all_seated (items : List (Item W))
    (fits : ∀ frame : Frame W, frame.isRefusing = true → frame.Fits worker below)
    (rest : Stacked (Frame.Seated worker) below) :
    Stacked (Frame.Seated worker) (items.flatMap Item.refuse ++ below) := by
  induction items with
  | nil => exact rest
  | cons item others ih =>
    rw [List.flatMap_cons, List.append_assoc]
    have next (frame : Frame W) (refusing : frame.isRefusing = true) :
        frame.Fits worker (others.flatMap Item.refuse ++ below) := by
      cases others with
      | nil => exact fits frame refusing
      | cons second others => cases second <;> exact refusing
    cases item with
    | job job => exact job.refuse_seated (next _ rfl) ih
    | group g => exact ⟨⟨next _ rfl, rfl⟩, ih⟩

section Roomy

variable (roomy : Roomy worker below) (rest : Stacked (Frame.Seated worker) below)

include roomy rest

theorem Next.resume_seated (next : Next W) (direct : Bool)
    (result : Except DomainError (List Value)) :
    Stacked (Frame.Seated worker) (next.resume direct result ++ below) := by
  have handle : Stacked (Frame.Seated worker) (.dropHandle :: below) := ⟨⟨roomy _, rfl⟩, rest⟩
  have share : Stacked (Frame.Seated worker) (.leave :: .dropHandle :: below) :=
    ⟨⟨roomy_dropHandle roomy _, rfl⟩, handle⟩
  cases next with
  | place call =>
    have call : Stacked (Frame.Seated worker)
        (.letGo (Next.place call : Next W).held :: .leave :: .dropHandle :: below) :=
      ⟨⟨.inr (.inl ⟨⟨_, rfl⟩, _, rfl⟩), rfl⟩, share⟩
    cases result with
    | ok args => exact ⟨⟨rfl, rfl⟩, call⟩
    | error e => exact ⟨⟨rfl, rfl⟩, call⟩
  | client continuation =>
    refine ⟨⟨roomy_letGo roomy _ _, ?_⟩, ⟨roomy _, rfl⟩, rest⟩
    cases direct <;> rfl

theorem Next.abandon_seated (next : Next W) (panic : Panic) :
    Stacked (Frame.Seated worker) (next.abandon panic ++ below) := by
  cases next with
  | place call =>
    exact ⟨⟨.inr (.inr ⟨rfl, _, _, _, rfl⟩), rfl⟩, ⟨rfl, rfl⟩, ⟨roomy _, rfl⟩, rest⟩
  | client continuation => exact ⟨⟨roomy _, rfl⟩, rest⟩

theorem Callback.notify_seated (outcome : Outcome) (callback : Callback W) :
    Stacked (Frame.Seated worker) (callback.notify outcome ++ below) := by
  cases callback with
  | silent => exact rest
  | client notify => exact ⟨⟨roomy _, rfl⟩, rest⟩
  | argument r =>
    cases outcome with
    | ok value => exact ⟨⟨roomy _, rfl⟩, rest⟩
    | error e =>
      have handle : Stacked (Frame.Seated worker) (.dropHandle :: below) :=
        ⟨⟨roomy _, rfl⟩, rest⟩
      have held : Stacked (Frame.Seated worker)
          (.letGo (.ofValues r.args ++ r.background) :: .dropHandle :: below) :=
        ⟨⟨roomy_dropHandle roomy _, rfl⟩, handle⟩
      rw [notify, List.append_assoc]
      exact r.next.resume_seated (roomy_letGo (roomy_dropHandle roomy) _) held false _

theorem Invocation.dispatch_seated (inv : Invocation) (mode : Mode)
    (callback : Outcome → Code W) :
    Stacked (Frame.Seated worker) (inv.dispatch mode callback ++ below) := by
  have rejected (error : ValidationError) :
      Stacked (Frame.Seated worker) (inv.reject callback error ++ below) :=
    ⟨⟨rfl, rfl⟩, ⟨rfl, rfl⟩, ⟨roomy _, rfl⟩, rest⟩
  unfold dispatch
  split
  · rw [List.append_assoc]
    split
    · exact ⟨⟨roomy_letGo roomy _ _, rfl⟩, ⟨roomy _, rfl⟩, rest⟩
    · exact ⟨⟨roomy_letGo roomy _ _, rfl⟩, ⟨roomy _, rfl⟩, rest⟩
  · exact rejected _
  · exact rejected _

variable {client : Client W} {s : Shared W}

theorem Site.answered_seated (object : ObjectId) (type : ObjectType W) (site : Site W) :
    Stacked (Frame.Seated worker) ((site.answered s object type).frames ++ below) := by
  cases site with
  | omitted lookup =>
    have held : Stacked (Frame.Seated worker) (.letGo (.ofValues lookup.args) :: below) :=
      ⟨⟨roomy _, rfl⟩, rest⟩
    simp only [answered]
    split
    · rw [List.append_assoc]
      exact lookup.next.resume_seated (roomy_letGo roomy _) held true _
    · exact lookup.next.resume_seated roomy rest true _
    · exact ⟨⟨roomy _, rfl⟩, rest⟩
  | expressions lookup pending =>
    cases next : lookup.next with
    | place call =>
      simp only [answered, next, Next.takenUp]
      exact ⟨⟨roomy _, rfl⟩, rest⟩
    | client continuation =>
      simp only [answered, next, Next.takenUp]
      exact ⟨⟨rfl, rfl⟩, ⟨roomy _, rfl⟩, rest⟩
  | listener stopping =>
    simp only [answered]
    split <;> exact ⟨⟨roomy _, rfl⟩, rest⟩
  | _ => exact ⟨⟨roomy _, rfl⟩, rest⟩

theorem Site.panicked_seated (object : ObjectId) (panic : Panic) (site : Site W) :
    Stacked (Frame.Seated worker) (site.panicked object panic ++ below) := by
  cases site with
  | omitted lookup | expressions lookup pending =>
    exact lookup.next.abandon_seated roomy rest panic
  | _ => exact ⟨⟨roomy _, rfl⟩, rest⟩

theorem Role.ended_seated (role : Role W) (result : Except Panic Outcome)
    (own : (!role.isTask || worker) = true) :
    Stacked (Frame.Seated worker) ((role.ended client s result).frames ++ below) := by
  cases role with
  | task job =>
    have staff : worker = true := own
    exact ⟨⟨.inl ⟨staff, rfl⟩, rfl⟩, ⟨roomy _, rfl⟩, rest⟩
  | query object site =>
    cases result with
    | ok outcome => exact site.answered_seated roomy rest object _
    | error panic => exact site.panicked_seated roomy rest object panic
  | continuation | call receiver args => cases result <;> exact ⟨⟨roomy _, rfl⟩, rest⟩
  | handler stopping => exact ⟨⟨roomy _, rfl⟩, rest⟩
  | thread | callback outcome | continued => exact rest

theorem Request.serve_seated (sight : Sight) (request : Request) :
    Stacked (Frame.Seated worker) ((request.serve client sight s).frames ++ below) := by
  cases request with
  | view future | wait future | waitAtMost future milliseconds | takeHandle =>
    simp only [serve]
    split <;> exact ⟨⟨roomy _, rfl⟩, rest⟩
  | shutdown | dropHandle => exact ⟨⟨rfl, rfl⟩, ⟨roomy _, rfl⟩, rest⟩
  | _ => exact ⟨⟨roomy _, rfl⟩, rest⟩

theorem Code.step_seated {sight : Sight} {late : Bool} {role : Role W} {code : Code W}
    {p : Progress W} (own : (!role.isTask || worker) = true)
    (taken : code.step client sight late s role = some p) :
    Stacked (Frame.Seated worker) (p.frames ++ below) := by
  have goesOn (code : Code W) :
      Stacked (Frame.Seated worker) (.running role code :: below) := ⟨⟨roomy _, own⟩, rest⟩
  have waits (next : Reply → Code W) :
      Stacked (Frame.Seated worker) (.waiting role next :: below) := ⟨⟨roomy _, own⟩, rest⟩
  have room (next : Reply → Code W) : Roomy worker (.waiting role next :: below) :=
    roomy_cons rfl
  cases code with
  | finish outcome | panic payload => cases taken; exact role.ended_seated roomy rest _ own
  | act update next | addHandler handler next | spawn thread next =>
    cases taken
    exact goesOn _
  | await ready next =>
    simp only [step] at taken
    split at taken <;> cases taken
    exact goesOn _
  | awaitAtMost milliseconds ready next =>
    simp only [step] at taken
    split at taken
    · cases taken
      exact goesOn _
    · split at taken <;> cases taken
      exact goesOn _
  | ask request next =>
    cases taken
    show Stacked _ ((_ ++ [_]) ++ below)
    rw [List.append_assoc]
    exact request.serve_seated (room next) (waits next) sight
  | create spec callback next => cases taken; exact ⟨⟨room next _, rfl⟩, waits next⟩
  | schedule place work future next =>
    cases taken
    refine ⟨⟨roomy_letGo (room next) _ _, ?_⟩, ⟨room next _, rfl⟩, waits next⟩
    split <;> rfl
  | invoke mode invocation callback next =>
    cases taken
    show Stacked _ ((_ ++ [_]) ++ below)
    rw [List.append_assoc]
    exact invocation.dispatch_seated (room next) (waits next) mode callback
  | resolve receiver method args parent continuation next =>
    cases taken
    exact ⟨⟨roomy_letGo (room next) _ _, rfl⟩, ⟨room next _, rfl⟩, waits next⟩

end Roomy

/-! ## One step -/

theorem fits_announce {f : FutureId} {outcome : Outcome}
    (fits : (Frame.settle f outcome : Frame W).Fits worker below) :
    (Frame.announce f : Frame W).Fits worker below := by
  cases below with
  | nil => trivial
  | cons next others =>
    cases next with
    | discard job =>
      rcases fits with same | other
      · injection same with same
        exact .inr (congrArg _ same)
      · cases other
    | settle g outcome' | drain group | raiseFlag | ringAll | lockCrew => cases fits
    | leave =>
      rcases fits with ⟨staff, _⟩ | ⟨⟨_, letsGo⟩, _⟩ | ⟨dropping, _⟩
      · exact .inl ⟨staff, rfl⟩
      · cases letsGo
      · cases dropping
    | letGo held =>
      cases others with
      | nil => exact rfl
      | cons lower others => cases lower <;> exact rfl
    | dropHandle =>
      cases others with
      | nil => exact rfl
      | cons lower others =>
        cases lower with
        | leave => exact fits.elim
        | _ => exact rfl
    | _ => exact fits

def Frame.isRigid : Frame W → Bool
  | settle _ _ | announce _ | letGo _ | raiseFlag | ringAll => true
  | _ => false

/-- A frame may be replaced by another of its kinds. -/
theorem Frame.Fits.replace {frame next : Frame W} (fits : frame.Fits worker below)
    (flexible : frame.isRigid = false)
    (refusing : frame.isRefusing = true → next.isRefusing = true)
    (dropping : frame.isDropping = true → next.isDropping = true)
    (placing : frame.isPlacing = true → next.isPlacing = true) : next.Fits worker below := by
  cases below with
  | nil => trivial
  | cons first others =>
    cases first with
    | discard job => obtain rfl | rfl := fits <;> cases flexible
    | settle g outcome | drain group | raiseFlag => exact refusing fits
    | ringAll | lockCrew => obtain rfl := fits; cases flexible
    | leave =>
      rcases fits with ⟨_, completing⟩ | ⟨⟨_, rfl⟩, _⟩ | ⟨drops, failing⟩
      · have rigid : frame.isRigid = true := by
          cases frame <;> first | exact rfl | cases completing
        rw [rigid] at flexible
        cases flexible
      · cases flexible
      · exact .inr (.inr ⟨dropping drops, failing⟩)
    | letGo held =>
      cases others with
      | nil => exact rfl
      | cons lower others =>
        cases lower with
        | leave => exact placing fits
        | _ => exact rfl
    | dropHandle =>
      cases others with
      | nil => exact rfl
      | cons lower others =>
        cases lower with
        | leave => exact fits.elim
        | _ => exact rfl
    | _ => exact fits

theorem Frame.Fits.roomy {frame : Frame W} (fits : frame.Fits worker below)
    (flexible : frame.isRigid = false) (notRefusing : frame.isRefusing = false)
    (notDropping : frame.isDropping = false) (notPlacing : frame.isPlacing = false) :
    Roomy worker below := fun _ =>
  fits.replace flexible (fun h => by rw [notRefusing] at h; cases h)
    (fun h => by rw [notDropping] at h; cases h) (fun h => by rw [notPlacing] at h; cases h)

theorem Asker.fits_answer {frame : Frame W} (asker : Asker) (result : Except ScheduleError Unit)
    (fits : frame.Fits worker below) : frame.Fits worker (asker.answer result ++ below) := by
  cases asker with
  | client f => exact rfl
  | nobody => exact fits

variable {client : Client W} {s : Shared W}

structure Frame.Places (asker : Asker) (frame : Frame W) : Prop where
  flexible : frame.isRigid = false
  notRefusing : frame.isRefusing = false
  notDropping : frame.isDropping = false
  placing : frame.isPlacing = !asker.isClient

section Placing

variable {frame : Frame W} {asker : Asker} (places : frame.Places asker)
  (fits : frame.Fits worker below) (rest : Stacked (Frame.Seated worker) below)

include places fits

theorem fits_of_places {next : Frame W} (placing : asker.isClient = false → next.isPlacing = true) :
    next.Fits worker below :=
  fits.replace places.flexible (fun h => by rw [places.notRefusing] at h; cases h)
    (fun h => by rw [places.notDropping] at h; cases h)
    (fun h => placing (by rw [places.placing] at h; simpa using h))

include rest

theorem answer_seated (result : Except ScheduleError Unit) :
    Stacked (Frame.Seated worker) (asker.answer result ++ below) :=
  asker.answer_seated result
    (fun asks => fits.roomy places.flexible places.notRefusing places.notDropping
      (by rw [places.placing, asks]; rfl)) rest

theorem ring_answer_seated (result : Except ScheduleError Unit) :
    Stacked (Frame.Seated worker) (.ring :: asker.answer result ++ below) :=
  ⟨⟨asker.fits_answer result (fits_of_places places fits fun _ => rfl), rfl⟩,
    answer_seated places fits rest result⟩

theorem refuse_answer_seated (job : Job W) (result : Except ScheduleError Unit) :
    Stacked (Frame.Seated worker) ((job.refuse ++ asker.answer result) ++ below) := by
  rw [List.append_assoc]
  exact job.refuse_seated (asker.fits_answer result (fits_of_places places fits fun _ => rfl))
    (answer_seated places fits rest result)

end Placing

theorem settleStep_seated {f : FutureId} {outcome : Outcome}
    (fits : (Frame.settle f outcome : Frame W).Fits worker below)
    (rest : Stacked (Frame.Seated worker) below) :
    Stacked (Frame.Seated worker) ((settleStep s f outcome).frames ++ below) := by
  have announce : Stacked (Frame.Seated worker) (.announce f :: below) :=
    ⟨⟨fits_announce fits, rfl⟩, rest⟩
  simp only [settleStep]
  split
  · rename_i callback _ _ _ _
    rw [List.append_assoc]
    cases callback with
    | none => exact announce
    | some callback => exact callback.notify_seated (roomy_cons rfl) announce outcome
  · exact rest

theorem closeStep_seated (fits : (Frame.close : Frame W).Fits worker below)
    (rest : Stacked (Frame.Seated worker) below) :
    Stacked (Frame.Seated worker) ((closeStep s).frames ++ below) := by
  have lock : (Frame.lockCrew : Frame W).Fits worker below :=
    fits.replace rfl (fun h => by cases h) (fun _ => rfl) (fun h => by cases h)
  have after : Stacked (Frame.Seated worker) (.raiseFlag :: .ringAll :: .lockCrew :: below) :=
    ⟨⟨rfl, rfl⟩, ⟨rfl, rfl⟩, ⟨lock, rfl⟩, rest⟩
  rw [closeStep, List.append_assoc]
  exact Item.refuse_all_seated _ (fun _ refusing => refusing) after

theorem claimStep_seated {placing : Placing W} (fits : (Frame.claim placing).Fits worker below)
    (rest : Stacked (Frame.Seated worker) below) :
    Stacked (Frame.Seated worker) ((claimStep s placing).frames ++ below) := by
  have places : (Frame.claim placing).Places placing.asker := ⟨rfl, rfl, rfl, rfl⟩
  simp only [claimStep]
  split
  · exact ⟨⟨fits_of_places places fits fun asks => by simp [asks], rfl⟩, rest⟩
  · exact answer_seated places fits rest _

theorem enterStep_seated {placing : Placing W} (fits : (Frame.enter placing).Fits worker below)
    (rest : Stacked (Frame.Seated worker) below) :
    Stacked (Frame.Seated worker) ((enterStep s placing).frames ++ below) := by
  have places : (Frame.enter placing).Places placing.asker := ⟨rfl, rfl, rfl, rfl⟩
  simp only [enterStep]
  split <;> exact ⟨⟨fits_of_places places fits fun asks => by simp [asks], rfl⟩, rest⟩

theorem pushStep_seated {job : Job W} {asker : Asker}
    (fits : (Frame.push job asker).Fits worker below)
    (rest : Stacked (Frame.Seated worker) below) :
    Stacked (Frame.Seated worker) ((pushStep s job asker).frames ++ below) := by
  have places : (Frame.push job asker).Places asker := ⟨rfl, rfl, rfl, rfl⟩
  simp only [pushStep]
  split
  · exact ring_answer_seated places fits rest _
  · exact refuse_answer_seated places fits rest job _

theorem checkOpenStep_seated {receiver : ObjectId} {job : Job W} {asker : Asker}
    (fits : (Frame.checkOpen receiver job asker).Fits worker below)
    (rest : Stacked (Frame.Seated worker) below) :
    Stacked (Frame.Seated worker) ((checkOpenStep s receiver job asker).frames ++ below) := by
  have places : (Frame.checkOpen receiver job asker).Places asker := ⟨rfl, rfl, rfl, rfl⟩
  simp only [checkOpenStep]
  split
  · exact refuse_answer_seated places fits rest job _
  · exact ⟨⟨fits_of_places places fits fun asks => by simp [asks], rfl⟩, rest⟩

theorem appendStep_seated {receiver : ObjectId} {group : GroupId} {job : Job W} {asker : Asker}
    (fits : (Frame.append receiver group job asker).Fits worker below)
    (rest : Stacked (Frame.Seated worker) below) :
    Stacked (Frame.Seated worker) ((appendStep s group job asker).frames ++ below) := by
  have places : (Frame.append receiver group job asker).Places asker := ⟨rfl, rfl, rfl, rfl⟩
  simp only [appendStep]
  split
  · dsimp only
    split
    · exact answer_seated places fits rest _
    · exact ⟨⟨fits_of_places places fits fun asks => by simp [asks], rfl⟩, rest⟩
  · exact refuse_answer_seated places fits rest job _

theorem submitStep_seated {group : GroupId} {asker : Asker}
    (fits : (Frame.submit group asker : Frame W).Fits worker below)
    (rest : Stacked (Frame.Seated worker) below) :
    Stacked (Frame.Seated worker) ((submitStep s group asker).frames ++ below) := by
  have places : (Frame.submit group asker : Frame W).Places asker := ⟨rfl, rfl, rfl, rfl⟩
  simp only [submitStep]
  split
  · exact ring_answer_seated places fits rest _
  · exact ⟨⟨asker.fits_answer _ (fits_of_places places fits fun _ => rfl), rfl⟩,
      answer_seated places fits rest _⟩

theorem drainStep_seated {group : GroupId} (fits : (Frame.drain group : Frame W).Fits worker below)
    (rest : Stacked (Frame.Seated worker) below) :
    Stacked (Frame.Seated worker) ((drainStep s group).frames ++ below) := by
  simp only [drainStep]
  split
  · exact Job.refuse_all_seated _
      (fun job => fits.replace rfl (fun _ => rfl) (fun h => by cases h) (fun _ => rfl)) rest
  · exact rest

theorem shutdownStep_seated (fits : (Frame.shutdown : Frame W).Fits worker below)
    (rest : Stacked (Frame.Seated worker) below) :
    Stacked (Frame.Seated worker) ((shutdownStep worker s).frames ++ below) := by
  have drops (next : Frame W) (dropping : next.isDropping = true) : next.Fits worker below :=
    fits.replace rfl (fun h => by cases h) (fun _ => dropping) (fun h => by cases h)
  simp only [shutdownStep]
  split
  · exact rest
  · cases worker with
    | true => exact ⟨⟨drops _ rfl, rfl⟩, rest⟩
    | false => exact ⟨⟨drops _ rfl, rfl⟩, rest⟩

section Roomy

variable (roomy : Roomy worker below) (rest : Stacked (Frame.Seated worker) below)

include roomy rest

theorem openCallStep_seated {call : Call W} {metadata : Metadata} {fault : Option Panic} :
    Stacked (Frame.Seated worker) ((openCallStep s call metadata fault).frames ++ below) := by
  cases fault with
  | some panic => exact ⟨⟨rfl, rfl⟩, ⟨rfl, rfl⟩, ⟨roomy _, rfl⟩, rest⟩
  | none =>
    cases mode : call.mode <;> simp only [openCallStep, mode] <;>
      exact ⟨⟨rfl, rfl⟩, ⟨roomy _, rfl⟩, rest⟩

theorem evaluateStep_seated {r : Resolution W} :
    Stacked (Frame.Seated worker) ((evaluateStep s r).frames ++ below) := by
  have handle : Stacked (Frame.Seated worker) (.dropHandle :: below) := ⟨⟨roomy _, rfl⟩, rest⟩
  have held : Stacked (Frame.Seated worker) (.letGo r.background :: .dropHandle :: below) :=
    ⟨⟨roomy_dropHandle roomy _, rfl⟩, handle⟩
  have room := roomy_letGo (roomy_dropHandle roomy) r.background
  simp only [evaluateStep]
  split
  · rw [List.append_assoc]
    exact r.next.resume_seated room held false _
  · exact ⟨⟨room _, rfl⟩, held⟩

/-- A worker on its round. -/
theorem Frame.step_seated_of_isOnRound {sight : Sight} {choice : Choice} {frame : Frame W}
    {p : Progress W} (onRound : frame.isOnRound = true) (suits : frame.suits worker = true)
    (taken : frame.step client sight choice s = some p) :
    Stacked (Frame.Seated worker) (p.frames ++ below) := by
  have isWorker : worker = true := by
    cases frame <;> first | exact suits | cases onRound
  subst isWorker
  have single (next : Frame W) (nextOnRound : next.isOnRound = true) :
      Stacked (Frame.Seated true) (next :: below) := by
    refine ⟨⟨roomy next, ?_⟩, rest⟩
    cases next <;> first | rfl | cases nextOnRound
  cases frame with
  | poll =>
    cases taken
    simp only [pollStep]
    split
    · exact ⟨⟨rfl, rfl⟩, single .poll rfl⟩
    · exact ⟨⟨rfl, rfl⟩, single .poll rfl⟩
    · exact single _ rfl
  | checkFlag =>
    cases taken
    simp only [checkFlagStep]
    split
    · exact rest
    · exact single _ rfl
  | lockBell | getUp =>
    simp only [step, lockBellStep, getUpStep] at taken
    split at taken <;> cases taken
    exact single _ rfl
  | recheckQueue =>
    cases taken
    simp only [recheckQueueStep]
    split <;> exact single _ rfl
  | recheckFlag =>
    cases taken
    simp only [recheckFlagStep]
    split
    · exact rest
    · exact single _ rfl
  | settleDown =>
    cases taken
    simp only [settleDownStep]
    split <;> exact single _ rfl
  | rest =>
    simp only [step, restStep] at taken
    split at taken
    · split at taken <;> cases taken
      exact single _ rfl
    · cases taken
      exact single _ rfl
  | turn group =>
    cases taken
    simp only [turnStep]
    split
    · dsimp only
      split
      · exact ⟨⟨rfl, rfl⟩, single (.endTurn group) rfl⟩
      · exact rest
    · exact rest
  | endTurn group =>
    cases taken
    simp only [endTurnStep]
    split
    · dsimp only
      split
      · exact rest
      · exact ⟨⟨roomy _, rfl⟩, rest⟩
    · exact rest
  | _ => cases onRound

theorem runHandlersStep_seated {stopping : Stopping W} :
    Stacked (Frame.Seated worker) ((runHandlersStep s stopping).frames ++ below) := by
  simp only [runHandlersStep]
  split <;> exact ⟨⟨roomy _, rfl⟩, rest⟩

theorem askListenersStep_seated {stopping : Stopping W} :
    Stacked (Frame.Seated worker) ((askListenersStep s stopping).frames ++ below) := by
  simp only [askListenersStep]
  split <;> exact ⟨⟨roomy _, rfl⟩, rest⟩

theorem awaitListenersStep_seated {stopping : Stopping W} {p : Progress W}
    (taken : awaitListenersStep s stopping = some p) :
    Stacked (Frame.Seated worker) (p.frames ++ below) := by
  simp only [awaitListenersStep] at taken
  split at taken
  · cases taken
    cases shuts : stopping.shutsDown with
    | true => exact ⟨⟨rfl, rfl⟩, ⟨roomy _, rfl⟩, rest⟩
    | false => exact ⟨⟨roomy _, rfl⟩, rest⟩
  · split at taken <;> cases taken
    exact ⟨⟨roomy _, rfl⟩, rest⟩

theorem awaitFutureStep_seated {f : FutureId} {late : Bool} {p : Progress W}
    (taken : awaitFutureStep s f late = some p) :
    Stacked (Frame.Seated worker) (p.frames ++ below) := by
  simp only [awaitFutureStep] at taken
  split at taken
  · cases taken
    exact ⟨⟨roomy _, rfl⟩, rest⟩
  · split at taken <;> cases taken
    exact ⟨⟨roomy _, rfl⟩, rest⟩

end Roomy

/-- Frames that no client's code leaves, one by one. -/
theorem Frame.step_seated {sight : Sight} {choice : Choice} {frame : Frame W} {p : Progress W}
    (staff : sight.worker = worker)
    (seated : Stacked (Frame.Seated worker) (frame :: below))
    (taken : frame.step client sight choice s = some p) :
    Stacked (Frame.Seated worker) (p.frames ++ below) := by
  obtain ⟨⟨fits, suits⟩, rest⟩ := seated
  cases frame with
  | running role code => exact Code.step_seated (fits.roomy rfl rfl rfl rfl) rest suits taken
  | waiting role next => cases taken
  | deliver reply | letGo held | announce f | leave | discard job | raiseFlag =>
    cases taken
    exact rest
  | claim placing => cases taken; exact claimStep_seated fits rest
  | enter placing => cases taken; exact enterStep_seated fits rest
  | push job asker => cases taken; exact pushStep_seated fits rest
  | checkOpen receiver job asker => cases taken; exact checkOpenStep_seated fits rest
  | locate receiver job asker =>
    have places : (Frame.locate receiver job asker).Places asker := ⟨rfl, rfl, rfl, rfl⟩
    cases taken
    exact ⟨⟨fits_of_places places fits fun asks => by simp [asks], rfl⟩, rest⟩
  | append receiver group job asker => cases taken; exact appendStep_seated fits rest
  | submit group asker => cases taken; exact submitStep_seated fits rest
  | drain group => cases taken; exact drainStep_seated fits rest
  | ring | ringAll =>
    simp only [step, ringStep] at taken
    split at taken <;> cases taken
    exact rest
  | settle f outcome => cases taken; exact settleStep_seated fits rest
  | dropHandle =>
    cases taken
    simp only [dropHandleStep]
    split
    · exact ⟨⟨fits.replace rfl (fun h => by cases h) (fun _ => rfl) (fun h => by cases h), rfl⟩,
        rest⟩
    · exact rest
  | shutdown =>
    subst staff
    cases taken
    exact shutdownStep_seated fits rest
  | awaitIdle =>
    simp only [step, awaitIdleStep] at taken
    split at taken <;> cases taken
    exact ⟨⟨fits.replace rfl (fun h => by cases h) (fun _ => rfl) (fun h => by cases h), rfl⟩, rest⟩
  | close => cases taken; exact closeStep_seated fits rest
  | lockCrew =>
    simp only [step, lockCrewStep] at taken
    split at taken <;> cases taken
    exact ⟨⟨fits.replace rfl (fun h => by cases h) (fun _ => rfl) (fun h => by cases h), rfl⟩, rest⟩
  | join workers =>
    cases workers with
    | nil => cases taken; exact rest
    | cons first others =>
      simp only [step, joinStep] at taken
      split at taken <;> cases taken
      exact ⟨⟨fits.replace rfl (fun h => by cases h) (fun _ => rfl) (fun h => by cases h), rfl⟩,
        rest⟩
  | query object site | track call lane =>
    cases taken
    exact ⟨⟨fits.roomy rfl rfl rfl rfl _, rfl⟩, rest⟩
  | openCall call metadata fault =>
    cases taken
    exact openCallStep_seated (fits.roomy rfl rfl rfl rfl) rest
  | evaluate r =>
    cases taken
    exact evaluateStep_seated (fits.roomy rfl rfl rfl rfl) rest
  | poll | checkFlag | lockBell | recheckQueue | recheckFlag | settleDown | rest | getUp
  | turn group | endTurn group =>
    exact step_seated_of_isOnRound (fits.roomy rfl rfl rfl rfl) rest rfl suits taken
  | takeHandlers shutsDown | readListeners stopping =>
    cases taken
    exact ⟨⟨fits.roomy rfl rfl rfl rfl _, rfl⟩, rest⟩
  | runHandlers stopping =>
    cases taken
    exact runHandlersStep_seated (fits.roomy rfl rfl rfl rfl) rest
  | askListeners stopping =>
    cases taken
    exact askListenersStep_seated (fits.roomy rfl rfl rfl rfl) rest
  | openStop listener lane metadata stopping =>
    have roomy := fits.roomy rfl rfl rfl rfl
    cases taken
    exact ⟨⟨rfl, rfl⟩, ⟨roomy _, rfl⟩, rest⟩
  | awaitListeners stopping =>
    exact awaitListenersStep_seated (fits.roomy rfl rfl rfl rfl) rest taken
  | awaitFuture f | awaitFutureAtMost f milliseconds =>
    exact awaitFutureStep_seated (fits.roomy rfl rfl rfl rfl) rest taken

/-- What waited for a reply may let it pass. -/
theorem Frame.Fits.deliver {held : Holding} {reply : Reply}
    (fits : (Frame.letGo held : Frame W).Fits worker below)
    (above : (Frame.deliver reply : Frame W).Fits worker (.letGo held :: below)) :
    (Frame.deliver reply : Frame W).Fits worker below := by
  cases below with
  | nil => trivial
  | cons next others =>
    cases next with
    | discard job => rcases fits with other | other <;> cases other
    | settle f outcome | drain group | raiseFlag | ringAll | lockCrew => cases fits
    | leave => cases above
    | letGo held =>
      cases others with
      | nil => exact rfl
      | cons lower others =>
        cases lower with
        | leave => cases fits
        | _ => exact rfl
    | dropHandle =>
      cases others with
      | nil => exact rfl
      | cons lower others =>
        cases lower with
        | leave => exact fits.elim
        | _ => exact rfl
    | _ => exact fits

theorem Move.seated {sight : Sight} {choice : Choice} {top : List (Frame W)} {p : Progress W}
    (staff : sight.worker = worker) (move : Move client sight choice s top p)
    (seated : Stacked (Frame.Seated worker) (top ++ below)) :
    Stacked (Frame.Seated worker) (p.frames ++ below) := by
  cases move with
  | receive reply role next =>
    obtain ⟨_, ⟨fits, suits⟩, rest⟩ := seated
    exact ⟨⟨fits.roomy rfl rfl rfl rfl _, suits⟩, rest⟩
  | pass reply held =>
    obtain ⟨⟨above, _⟩, ⟨fits, _⟩, rest⟩ := seated
    exact ⟨⟨fits.deliver above, rfl⟩, rest⟩
  | act taken => exact Frame.step_seated staff seated taken

end Frames

namespace State

variable {client : Client W} {workers : Nat} {world : W} {kept : List ObjectId}
  {threads : List (Code W)} {s : State W} {history : List Event}

namespace Trace

/-- All frames are seated along every trace. -/
theorem seated (trace : Trace client (State.start workers world kept threads) history s) :
    ∀ t ∈ s.threads, Stacked (Frame.Seated t.worker) t.stack := by
  refine trace.keeps (fun _ s => ∀ t ∈ s.threads, Stacked (Frame.Seated t.worker) t.stack)
    (stacked_start_staff ⟨trivial, rfl⟩ fun _ _ => ⟨trivial, rfl⟩) ?_
  intro before e moment ih
  obtain ⟨acted⟩ := step_cases moment.taken
  exact stacked_step_staff acted ih (fun _ _ _ seated => seated)
    (fun stacked _ => acted.move.seated rfl stacked)
    fun _ _ => ⟨trivial, rfl⟩

/-- Only patient frames lie below others. -/
theorem patient (trace : Trace client (State.start workers world kept threads) history s)
    {t : Thread W} (mem : t ∈ s.threads) {frame : Frame W} {above below : List (Frame W)}
    (stack : t.stack = frame :: above ++ below) : ∀ lower ∈ below, lower.isPatient = true := by
  have seated := trace.seated t mem
  rw [stack] at seated
  exact isPatient_of_seated seated

/-- What a thread is at after its step is new, or had been left for later. -/
theorem acting_cases (trace : Trace client (State.start workers world kept threads) history s)
    {s' : State W} {thread : ThreadId} {choice : Choice} (acted : Acted client s s' thread choice)
    {frame : Frame W} (stands : s'.acting thread = some frame) :
    frame ∈ acted.progress.frames ∨ frame.isPatient = true := by
  rw [acted.acting'] at stands
  rcases List.mem_append.1 (List.mem_of_head? stands) with new | lower
  · exact .inl new
  · obtain ⟨first, above, top⟩ := acted.move.top_ne_nil
    have patient := trace.patient acted.actor_mem (acted.stack.trans (by rw [top]))
    exact .inr (patient _ lower)

end Trace
end State

/-! ## What is left for later -/

section Deferring

variable {worker : Bool} {frame : Frame W} {above below : List (Frame W)}

theorem guarded_append : Guarded (above ++ below) ↔ Guarded above ∨ Guarded below := by
  unfold Guarded
  rw [Frame.stakesOf_append, weigh_append]
  omega

theorem guarded_cons : Guarded (frame :: below) ↔ Guarded [frame] ∨ Guarded below := by
  rw [← guarded_append]
  rfl

/-- Nothing is left for later by frames between which no share of the work in flight is held. -/
theorem not_deferred_of_unguarded
    (seated : Stacked (Frame.Seated worker) (frame :: above ++ below))
    (notDeferred : frame.isDeferred = false) (unguarded : ¬ Guarded (frame :: above)) :
    ∀ lower ∈ above, lower.isDeferred = false := by
  induction above generalizing frame with
  | nil => exact fun _ mem => by cases mem
  | cons next others ih =>
    obtain ⟨⟨fits, _⟩, rest⟩ := seated
    have still : ¬ Guarded (next :: others) := fun guarded =>
      unguarded (guarded_cons.2 (.inr guarded))
    have here : next.isDeferred = false := by
      cases next with
      | settle f outcome | drain group | raiseFlag =>
        -- Only what is done with a refused job stands on these, and that holds a share.
        cases frame with
        | leave => exact absurd (guarded_of_leave List.mem_cons_self) unguarded
        | discard job => exact absurd (guarded_of_discard List.mem_cons_self) unguarded
        | drain group => cases notDeferred
        | _ => cases fits
      | ringAll | lockCrew =>
        obtain rfl := fits
        cases notDeferred
      | _ => rfl
    exact List.forall_mem_cons.2 ⟨here, ih rest here still⟩

end Deferring
end Strands
