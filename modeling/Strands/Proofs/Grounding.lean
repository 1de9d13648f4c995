/-
Every step leaves grounded frames.

Each operation is looked at once: the frames it leaves are grounded in the history
with its own event at the end.
-/
import Strands.Proofs.Ground

namespace Strands

variable {W : Type}

/-! ## Frames that operations leave -/

section Leaving

variable {history : List Event} {below : List (Frame W)}

theorem guarded_of_mem {frame : Frame W} (h : frame ∈ below) {stake : Stake}
    (held : stake ∈ frame.stakes) (share : 0 < stake.share) : Guarded below := by
  have mem : stake ∈ Frame.stakesOf below := List.mem_flatMap.2 ⟨frame, h, held⟩
  have := le_weigh (w := Stake.share) mem
  unfold Guarded
  omega

theorem guarded_of_leave (h : Frame.leave ∈ below) : Guarded below :=
  guarded_of_mem h (List.mem_singleton.2 rfl) Nat.one_pos

theorem guarded_of_discard {job : Job W} (h : Frame.discard job ∈ below) : Guarded below :=
  guarded_of_mem h (List.mem_singleton.2 rfl) Nat.one_pos

theorem Asker.answer_grounded {asker : Asker} (h : asker.Grounded history)
    (rest : Stacked (Frame.Grounded history) below) (result : Except ScheduleError Unit) :
    Stacked (Frame.Grounded history) (asker.answer result ++ below) := by
  cases asker with
  | client f => exact ⟨fun _ => h, rest⟩
  | nobody => exact rest

theorem Job.refuse_grounded {job : Job W} (h : Refused history job.future)
    (rest : Stacked (Frame.Grounded history) below) :
    Stacked (Frame.Grounded history) (job.refuse ++ below) :=
  ⟨⟨.inr (.inl ⟨h, rfl⟩), .inl (guarded_of_discard (List.mem_cons_self ..))⟩, trivial, rest⟩

theorem Job.refuse_all_grounded {jobs : List (Job W)}
    (h : ∀ job ∈ jobs, Refused history job.future)
    (rest : Stacked (Frame.Grounded history) below) :
    Stacked (Frame.Grounded history) (jobs.flatMap Job.refuse ++ below) := by
  induction jobs with
  | nil => exact rest
  | cons job others ih =>
    rw [List.flatMap_cons, List.append_assoc]
    exact Job.refuse_grounded (h job (List.mem_cons_self ..))
      (ih fun other mem => h other (List.mem_cons_of_mem _ mem))

theorem Item.refuse_all_grounded {items : List (Item W)} {futures : List FutureId}
    (closed : .closed futures ∈ history) (h : ∀ f ∈ Item.futures items, f ∈ futures)
    (rest : Stacked (Frame.Grounded history) below) :
    Stacked (Frame.Grounded history) (items.flatMap Item.refuse ++ below) := by
  induction items with
  | nil => exact rest
  | cons item others ih =>
    rw [List.flatMap_cons, List.append_assoc]
    cases item with
    | job job =>
      have among : job.future ∈ futures := h _ (List.mem_cons_self ..)
      exact Job.refuse_grounded (.inr (.inr (.inr ⟨futures, closed, among⟩)))
        (ih fun f mem => h f (List.mem_cons_of_mem _ mem))
    | group group => exact ⟨⟨futures, closed⟩, ih h⟩

theorem Next.placed_grounded (next : Next W) (direct : Bool) (args : List Value)
    (rest : Stacked (Frame.Grounded history) below) :
    Stacked (Frame.Grounded history) (next.resume direct (.ok args) ++ below) := by
  cases next with
  | place call =>
    exact ⟨.inl (guarded_of_leave (by simp)), trivial, trivial, trivial, rest⟩
  | client continuation => cases direct <;> exact ⟨trivial, trivial, rest⟩

theorem Next.failed_grounded (next : Next W) (direct : Bool) (e : DomainError)
    (h : ∀ f, next.call? = some f → Failed history f (.error e))
    (rest : Stacked (Frame.Grounded history) below) :
    Stacked (Frame.Grounded history) (next.resume direct (.error e) ++ below) := by
  cases next with
  | place call =>
    exact ⟨⟨.inr (.inr (h _ rfl)), .inl (guarded_of_leave (by simp))⟩, trivial, trivial, trivial, rest⟩
  | client continuation => cases direct <;> exact ⟨trivial, trivial, rest⟩

theorem Next.abandoned_grounded (next : Next W) (panic : Panic)
    (h : ∀ f, next.call? = some f →
      Failed history f (.error (.ofPanic panic)) ∧ Replied history f below)
    (rest : Stacked (Frame.Grounded history) below) :
    Stacked (Frame.Grounded history) (next.abandon panic ++ below) := by
  cases next with
  | place call =>
    obtain ⟨failed, replied⟩ := h _ rfl
    exact ⟨trivial, trivial, ⟨.inr (.inr failed), .inr replied⟩, rest⟩
  | client continuation => exact ⟨trivial, rest⟩

theorem Next.mem_of_failedEvent {next : Next W} {e : DomainError} {f : FutureId}
    (call : next.call? = some f) : Failed (history ++ [next.failedEvent e]) f (.error e) := by
  refine .inr (.inl ⟨e, .inr ?_, rfl⟩)
  simp [Next.failedEvent, call]

end Leaving

/-! ## Operations -/

section Operations

variable {client : Client W} {worker : Bool} {s : Shared W} {history : List Event}
  {below : List (Frame W)}

def Frame.after (client : Client W) (worker : Bool) (s : Shared W) (history : List Event)
    (below : List (Frame W)) (frame : Frame W) : List Event :=
  history ++ [frame.event client worker s below]

theorem claimStep_grounded {p : Placing W} (grounded : p.Grounded history below)
    (rest : Stacked (Frame.Grounded (Frame.after client worker s history below (.claim p))) below) :
    Stacked (Frame.Grounded (Frame.after client worker s history below (.claim p)))
      ((claimStep s p).frames ++ below) := by
  unfold claimStep
  split
  · rename_i found
    have event : Frame.event client worker s below (.claim p) =
        .claimed p.future p.asker.isClient (context below) := by
      simp only [Frame.event, found]
    refine ⟨⟨grounded.mono, context below, ?_, List.Subset.refl _⟩, rest⟩
    simp [Frame.after, event]
  · cases p.asker with
    | client f => exact ⟨fun answer => by simp at answer, rest⟩
    | nobody => exact rest

theorem enterStep_grounded {p : Placing W} (grounded : p.Grounded history below)
    (rest : Stacked (Frame.Grounded (Frame.after client worker s history below (.enter p))) below) :
    Stacked (Frame.Grounded (Frame.after client worker s history below (.enter p)))
      ((enterStep s p).frames ++ below) := by
  have counted : p.asker.Grounded (Frame.after client worker s history below (.enter p)) := by
    unfold Placing.Grounded at grounded
    cases asker : p.asker with
    | client f =>
      rw [asker] at grounded
      have same : f = p.future := grounded
      simp [Asker.Grounded, Frame.after, Frame.event, asker, Asker.isClient, same]
    | nobody => trivial
  unfold enterStep
  cases p.place <;> exact ⟨counted, rest⟩

theorem pushStep_grounded {job : Job W} {asker : Asker} (grounded : asker.Grounded history)
    (rest : Stacked (Frame.Grounded (Frame.after client worker s history below (.push job asker)))
      below) :
    Stacked (Frame.Grounded (Frame.after client worker s history below (.push job asker)))
      ((pushStep s job asker).frames ++ below) := by
  unfold pushStep RunQueue.push
  cases closed : s.queue.closed with
  | true =>
    have refused : Refused (Frame.after client worker s history below (.push job asker))
        job.future := by
      left
      simp [Frame.after, Frame.event, closed]
    show Stacked _ ((job.refuse ++ asker.answer _) ++ below)
    rw [List.append_assoc]
    exact Job.refuse_grounded refused (Asker.answer_grounded grounded.mono rest _)
  | false => exact ⟨trivial, Asker.answer_grounded grounded.mono rest _⟩

theorem checkOpenStep_grounded {receiver : ObjectId} {job : Job W} {asker : Asker}
    (grounded : asker.Grounded history)
    (rest : Stacked (Frame.Grounded
      (Frame.after client worker s history below (.checkOpen receiver job asker))) below) :
    Stacked (Frame.Grounded
        (Frame.after client worker s history below (.checkOpen receiver job asker)))
      ((checkOpenStep s receiver job asker).frames ++ below) := by
  unfold checkOpenStep
  cases closed : s.queue.closed with
  | true =>
    have refused : Refused
        (Frame.after client worker s history below (.checkOpen receiver job asker))
        job.future := by
      left
      simp [Frame.after, Frame.event, closed]
    show Stacked _ ((job.refuse ++ asker.answer _) ++ below)
    rw [List.append_assoc]
    exact Job.refuse_grounded refused (Asker.answer_grounded grounded.mono rest _)
  | false => exact ⟨grounded.mono, rest⟩

theorem appendStep_grounded {receiver : ObjectId} {group : GroupId} {job : Job W} {asker : Asker}
    (grounded : asker.Grounded history)
    (rest : Stacked (Frame.Grounded
      (Frame.after client worker s history below (.append receiver group job asker))) below) :
    Stacked (Frame.Grounded
        (Frame.after client worker s history below (.append receiver group job asker)))
      ((appendStep s group job asker).frames ++ below) := by
  unfold appendStep
  split
  · rename_i g found
    cases taken : g.taken with
    | true => exact Asker.answer_grounded grounded.mono rest _
    | false => exact ⟨grounded.mono, rest⟩
  · rename_i found
    have refused : Refused
        (Frame.after client worker s history below (.append receiver group job asker))
        job.future := by
      right; left
      simp [Frame.after, Frame.event, found]
    show Stacked _ ((job.refuse ++ asker.answer _) ++ below)
    rw [List.append_assoc]
    exact Job.refuse_grounded refused (Asker.answer_grounded grounded.mono rest _)

theorem submitStep_grounded {group : GroupId} {asker : Asker} {h : List Event}
    (grounded : asker.Grounded h)
    (closes : s.queue.closed = true → ∃ futures, .closed futures ∈ h)
    (rest : Stacked (Frame.Grounded h) below) :
    Stacked (Frame.Grounded h) ((submitStep s group asker).frames ++ below) := by
  unfold submitStep RunQueue.push
  cases closed : s.queue.closed with
  | true => exact ⟨closes closed, Asker.answer_grounded grounded rest _⟩
  | false => exact ⟨trivial, Asker.answer_grounded grounded rest _⟩

theorem drainStep_grounded {group : GroupId}
    (rest : Stacked (Frame.Grounded (Frame.after client worker s history below (.drain group)))
      below) :
    Stacked (Frame.Grounded (Frame.after client worker s history below (.drain group)))
      ((drainStep s group).frames ++ below) := by
  unfold drainStep
  split
  · rename_i g found
    refine Job.refuse_all_grounded (fun job mem => ?_) rest
    refine .inr (.inr (.inl ⟨group, g.jobs.map Job.future, ?_, List.mem_map_of_mem mem⟩))
    simp [Frame.after, Frame.event, found]
  · exact rest

theorem settleStep_grounded {f : FutureId} {outcome : Outcome}
    (grounded : Origin history f outcome below ∧ Covered history f below)
    (rest : Stacked (Frame.Grounded (Frame.after client worker s history below
      (.settle f outcome))) below) :
    Stacked (Frame.Grounded (Frame.after client worker s history below (.settle f outcome)))
      ((settleStep s f outcome).frames ++ below) := by
  unfold settleStep
  split
  · rename_i strand returnType callback notified claimed kept found
    have announced : Stacked (Frame.Grounded (Frame.after client worker s history below
        (.settle f outcome))) (.announce f :: below) :=
      ⟨⟨⟨outcome, grounded.1.mono⟩, grounded.2.mono⟩, rest⟩
    show Stacked _ (((callback.map (Callback.notify outcome)).getD [] ++ [.announce f]) ++ below)
    rw [List.append_assoc]
    cases callback with
    | none => exact announced
    | some callback =>
      cases callback with
      | silent => exact announced
      | client notify => exact ⟨trivial, announced⟩
      | argument resolution =>
        cases outcome with
        | ok value => exact ⟨trivial, announced⟩
        | error e =>
          show Stacked _ ((resolution.next.resume false (.error e) ++
            [.letGo (.ofValues resolution.args ++ resolution.background), .dropHandle]) ++
            (.announce f :: below))
          rw [List.append_assoc]
          refine Next.failed_grounded _ _ e (fun call eq => ?_) ⟨trivial, trivial, announced⟩
          refine .inr (.inr ⟨f, e, ?_, rfl⟩)
          simp [Frame.after, Frame.event, found, Callback.failing, eq]
  · exact rest

theorem openCallStep_grounded {call : Call W} {metadata : Metadata} {fault : Option Panic}
    (rest : Stacked (Frame.Grounded (Frame.after client worker s history below
      (.openCall call metadata fault))) below) :
    Stacked (Frame.Grounded (Frame.after client worker s history below
        (.openCall call metadata fault)))
      ((openCallStep s call metadata fault).frames ++ below) := by
  have opened : .opened s.futures.nextId fault (context below) ∈
      Frame.after client worker s history below (.openCall call metadata fault) := by
    simp [Frame.after, Frame.event]
  have delivered : Stacked (Frame.Grounded (Frame.after client worker s history below
      (.openCall call metadata fault))) (.deliver (.future s.futures.nextId) :: below) :=
    ⟨.inr ⟨fault, context below, opened, List.Subset.refl _⟩, rest⟩
  have replied : ∀ above : List (Frame W), Replied (Frame.after client worker s history below
      (.openCall call metadata fault)) s.futures.nextId
      (above ++ .deliver (.future s.futures.nextId) :: below) := fun above =>
    ⟨by simp, fault, context below, opened⟩
  cases fault with
  | some panic =>
    refine ⟨⟨.inr (.inr (.inl ⟨panic, context below, opened, rfl⟩)), .inr (replied [_])⟩, ?_⟩
    exact ⟨trivial, delivered⟩
  | none =>
    unfold openCallStep
    cases call.mode <;> exact ⟨replied [], delivered⟩

theorem evaluateStep_grounded {r : Resolution W}
    (rest : Stacked (Frame.Grounded (Frame.after client worker s history below (.evaluate r)))
      below) :
    Stacked (Frame.Grounded (Frame.after client worker s history below (.evaluate r)))
      ((evaluateStep s r).frames ++ below) := by
  unfold evaluateStep
  split
  · show Stacked _ ((r.next.resume false (.ok r.args) ++ [_, _]) ++ below)
    rw [List.append_assoc]
    exact Next.placed_grounded _ _ _ ⟨trivial, trivial, rest⟩
  · rename_i omitted others pending
    refine ⟨.inr (.inl ⟨r.next.call?, ?_⟩), trivial, trivial, rest⟩
    simp [Frame.after, Frame.event, pending]

theorem pollStep_grounded
    (rest : Stacked (Frame.Grounded (Frame.after client worker s history below .poll)) below) :
    Stacked (Frame.Grounded (Frame.after client worker s history below .poll))
      ((pollStep client s).frames ++ below) := by
  unfold pollStep RunQueue.pop
  cases items : s.queue.items with
  | nil => exact ⟨trivial, rest⟩
  | cons item others =>
    cases item with
    | job job =>
      refine ⟨.inl ?_, trivial, rest⟩
      simp [Frame.after, Frame.event, items]
    | group group => exact ⟨trivial, trivial, rest⟩

theorem turnStep_grounded {group : GroupId}
    (rest : Stacked (Frame.Grounded (Frame.after client worker s history below (.turn group)))
      below) :
    Stacked (Frame.Grounded (Frame.after client worker s history below (.turn group)))
      ((turnStep client s group).frames ++ below) := by
  unfold turnStep
  split
  · rename_i g found
    cases jobs : g.jobs with
    | nil =>
      simp only [Group.next, jobs]
      exact rest
    | cons job others =>
      simp only [Group.next, jobs]
      refine ⟨.inr ⟨g.object, group, ?_, by simp⟩, trivial, rest⟩
      simp [Frame.after, Frame.event, found, jobs]
  · exact rest

theorem endTurnStep_grounded {group : GroupId} {h : List Event}
    (rest : Stacked (Frame.Grounded h) below) :
    Stacked (Frame.Grounded h) ((endTurnStep s group).frames ++ below) := by
  unfold endTurnStep
  split
  · rename_i g found
    cases waiting : g.jobs.isEmpty with
    | true => exact rest
    | false => exact ⟨trivial, rest⟩
  · exact rest

theorem closeStep_grounded
    (rest : Stacked (Frame.Grounded (Frame.after client worker s history below .close)) below) :
    Stacked (Frame.Grounded (Frame.after client worker s history below .close))
      ((closeStep s).frames ++ below) := by
  show Stacked _ ((s.queue.items.flatMap Item.refuse ++ [.raiseFlag, .ringAll, .lockCrew]) ++ below)
  rw [List.append_assoc]
  have closed : .closed (Item.futures s.queue.items) ∈
      Frame.after client worker s history below .close := by
    simp [Frame.after, Frame.event]
  exact Item.refuse_all_grounded closed (fun _ => id) ⟨trivial, trivial, trivial, rest⟩

/-- The events of answers are those of the query's code. -/
theorem Site.answered_grounded {object : ObjectId} {type : ObjectType W} {site : Site W}
    (grounded : site.Grounded history below)
    (rest : Stacked (Frame.Grounded (history ++ [site.answeredEvent type])) below) :
    Stacked (Frame.Grounded (history ++ [site.answeredEvent type]))
      ((site.answered s object type).frames ++ below) := by
  cases site with
  | metadata call => exact ⟨trivial, rest⟩
  | lane call => exact ⟨Replied.mono grounded, rest⟩
  | omitted lookup =>
    cases missing : type.omitted lookup.method lookup.args.length with
    | error e =>
      simp only [answered, answeredEvent, missing] at rest ⊢
      rw [List.append_assoc]
      exact Next.failed_grounded _ _ e (fun f call => Next.mem_of_failedEvent call)
        ⟨trivial, rest⟩
    | ok pending =>
      cases pending with
      | nil =>
        simp only [answered, answeredEvent, missing] at rest ⊢
        exact Next.placed_grounded _ _ _ rest
      | cons first others =>
        simp only [answered, answeredEvent, missing] at rest ⊢
        exact ⟨fun f call => (grounded f call).mono, rest⟩
  | expressions lookup pending =>
    refine ⟨trivial, ?_⟩
    show Stacked _ (lookup.next.takenUp ++ below)
    cases lookup.next with
    | place call => exact rest
    | client continuation => exact ⟨trivial, rest⟩
  | listener stopping =>
    unfold answered
    cases type.method? stopMethod <;> exact ⟨Stopping.Grounded.mono grounded, rest⟩
  | client => exact ⟨trivial, rest⟩

theorem Site.panicked_grounded {object : ObjectId} {panic : Panic} {site : Site W}
    (grounded : site.Grounded history below)
    (rest : Stacked (Frame.Grounded (history ++ [site.panickedEvent panic])) below) :
    Stacked (Frame.Grounded (history ++ [site.panickedEvent panic]))
      (site.panicked object panic ++ below) := by
  cases site with
  | metadata call => exact ⟨trivial, rest⟩
  | lane call =>
    refine ⟨⟨.inr (.inr (.inr (.inl ⟨.ofPanic panic, .inl ?_, rfl⟩))), .inr (Replied.mono grounded)⟩, rest⟩
    simp [panickedEvent]
  | omitted lookup | expressions lookup pending =>
    exact Next.abandoned_grounded _ panic
      (fun f call => ⟨Next.mem_of_failedEvent call, (grounded f call).mono⟩) rest
  | listener stopping => exact ⟨Stopping.Grounded.mono grounded, rest⟩
  | client => exact ⟨trivial, rest⟩

theorem Role.ended_grounded {role : Role W} {result : Except Panic Outcome}
    (grounded : role.Grounded history below)
    (rest : Stacked (Frame.Grounded (history ++ [role.endedEvent client s result])) below) :
    Stacked (Frame.Grounded (history ++ [role.endedEvent client s result]))
      ((role.ended client s result).frames ++ below) := by
  cases role with
  | task job =>
    have lane : OnLane (history ++ [(Role.task job).endedEvent client s result]) job.future
        (.leave :: below) := (OnLane.mono grounded).above [.leave]
    refine ⟨⟨.inl ⟨?_, lane⟩, .inl (guarded_of_leave (List.mem_cons_self ..))⟩, trivial, rest⟩
    simp [endedEvent]
  | query object site =>
    cases result with
    | ok outcome => exact Site.answered_grounded grounded rest
    | error panic => exact Site.panicked_grounded grounded rest
  | continuation | call receiver args => cases result <;> exact ⟨trivial, rest⟩
  | handler stopping => exact ⟨Stopping.Grounded.mono grounded, rest⟩
  | thread | callback outcome | continued => exact rest

theorem Request.serve_grounded {sight : Sight} {request : Request}
    (rest : Stacked (Frame.Grounded (history ++ [request.event s])) below) :
    Stacked (Frame.Grounded (history ++ [request.event s]))
      ((request.serve client sight s).frames ++ below) := by
  cases request with
  | view future =>
    simp only [serve]
    split <;> exact ⟨trivial, rest⟩
  | wait future | waitAtMost future milliseconds =>
    simp only [serve]
    split <;> exact ⟨trivial, rest⟩
  | takeHandle =>
    simp only [serve]
    split <;> exact ⟨trivial, rest⟩
  | shutdown => exact ⟨.inl (by simp [event]), trivial, rest⟩
  | stop => exact ⟨fun _ => by simp [event], rest⟩
  | gracefulStop => exact ⟨Bool.noConfusion, rest⟩
  | dropHandle => exact ⟨trivial, trivial, rest⟩
  | _ => exact ⟨trivial, rest⟩

theorem Invocation.dispatch_grounded {inv : Invocation} {mode : Mode}
    {callback : Outcome → Code W} {h : List Event} (rest : Stacked (Frame.Grounded h) below) :
    Stacked (Frame.Grounded h) (inv.dispatch mode callback ++ below) := by
  unfold dispatch
  split
  · split <;> exact ⟨trivial, trivial, rest⟩
  · exact ⟨trivial, trivial, trivial, rest⟩
  · exact ⟨trivial, trivial, trivial, rest⟩

theorem Code.step_grounded {sight : Sight} {late : Bool} {role : Role W} {code : Code W}
    {p : Progress W} (taken : code.step client sight late s role = some p)
    (grounded : role.Grounded history below)
    (rest : Stacked (Frame.Grounded (history ++ [code.event client s role])) below) :
    Stacked (Frame.Grounded (history ++ [code.event client s role])) (p.frames ++ below) := by
  have goesOn : ∀ next, Stacked (Frame.Grounded (history ++ [code.event client s role]))
      (.running role next :: below) := fun next => ⟨grounded.mono, rest⟩
  have waits : ∀ next, Stacked (Frame.Grounded (history ++ [code.event client s role]))
      (.waiting role next :: below) := fun next => ⟨grounded.mono, rest⟩
  cases code with
  | finish outcome => cases taken; exact Role.ended_grounded grounded rest
  | panic payload => cases taken; exact Role.ended_grounded grounded rest
  | act update next | addHandler handler next | spawn thread next => cases taken; exact goesOn _
  | await ready next =>
    simp only [step] at taken
    split at taken <;> cases taken
    exact goesOn _
  | awaitAtMost milliseconds ready next =>
    simp only [step] at taken
    split at taken
    · cases taken
      exact goesOn _
    · split at taken <;> cases taken
      exact goesOn _
  | ask request next =>
    cases taken
    rw [List.append_assoc]
    exact Request.serve_grounded (waits next)
  | create spec callback next =>
    cases taken
    exact ⟨.inl (by simp [event]), waits next⟩
  | schedule place work future next =>
    cases taken
    cases had : s.hasHandle future with
    | false => exact ⟨by rw [if_neg Bool.false_ne_true]; trivial, trivial, waits next⟩
    | true => exact ⟨by rw [if_pos rfl]; exact rfl, trivial, waits next⟩
  | invoke mode invocation callback next =>
    cases taken
    rw [List.append_assoc]
    exact Invocation.dispatch_grounded (waits next)
  | resolve receiver method args parent continuation next =>
    cases taken
    exact ⟨fun f call => (by cases call), trivial, waits next⟩

theorem dropHandleStep_grounded
    (rest : Stacked (Frame.Grounded (Frame.after client worker s history below .dropHandle)) below) :
    Stacked (Frame.Grounded (Frame.after client worker s history below .dropHandle))
      ((dropHandleStep s).frames ++ below) := by
  simp only [dropHandleStep]
  split
  · rename_i last
    exact ⟨.inr (by simp [Frame.after, Frame.event, last]), rest⟩
  · exact rest

theorem shutdownStep_grounded
    (rest : Stacked (Frame.Grounded (Frame.after client worker s history below .shutdown)) below) :
    Stacked (Frame.Grounded (Frame.after client worker s history below .shutdown))
      ((shutdownStep worker s).frames ++ below) := by
  have began : .shutdown worker ∈ Frame.after client worker s history below .shutdown := by
    simp [Frame.after, Frame.event]
  simp only [shutdownStep]
  split
  · exact rest
  · cases worker with
    | true => exact ⟨.inl began, rest⟩
    | false => exact ⟨⟨_, began⟩, rest⟩

theorem awaitListenersStep_grounded {stopping : Stopping W} {h : List Event} {p : Progress W}
    (grounded : stopping.Grounded h) (rest : Stacked (Frame.Grounded h) below)
    (taken : awaitListenersStep s stopping = some p) :
    Stacked (Frame.Grounded h) (p.frames ++ below) := by
  simp only [awaitListenersStep] at taken
  split at taken
  · cases taken
    dsimp only
    split
    · rename_i shutsDown
      exact ⟨.inl (grounded shutsDown), trivial, rest⟩
    · exact ⟨trivial, rest⟩
  · split at taken <;> cases taken
    exact ⟨grounded, rest⟩

theorem grounded_of_emptyHanded {h : List Event} {frames : List (Frame W)}
    (empty : ∀ frame ∈ frames, frame.isEmptyHanded = true)
    (rest : Stacked (Frame.Grounded h) below) : Stacked (Frame.Grounded h) (frames ++ below) := by
  refine .append (fun frame mem lower => ?_) rest
  have empty := empty frame mem
  cases frame with
  | deliver reply => cases reply <;> trivial
  | _ => trivial

theorem Frame.step_grounded {sight : Sight} {choice : Choice} {frame : Frame W} {p : Progress W}
    (taken : frame.step client sight choice s = some p)
    (grounded : frame.Grounded history below)
    (closes : s.queue.closed = true → ∃ futures, .closed futures ∈ history)
    (rest : Stacked (Frame.Grounded (frame.after client sight.worker s history below)) below) :
    Stacked (Frame.Grounded (frame.after client sight.worker s history below))
      (p.frames ++ below) := by
  have closes' : s.queue.closed = true →
      ∃ futures, .closed futures ∈ frame.after client sight.worker s history below := fun closed => by
    obtain ⟨futures, mem⟩ := closes closed
    exact ⟨futures, List.mem_append_left _ mem⟩
  by_cases lingers : frame.lingers = true
  · exact grounded_of_emptyHanded (step_of_lingers lingers taken).frames rest
  cases frame with
  | running role code => exact Code.step_grounded taken grounded rest
  | waiting role next => cases taken
  | claim p => cases taken; exact claimStep_grounded grounded rest
  | enter p => cases taken; exact enterStep_grounded grounded.1 rest
  | push job asker => cases taken; exact pushStep_grounded grounded rest
  | checkOpen receiver job asker => cases taken; exact checkOpenStep_grounded grounded rest
  | locate receiver job asker => cases taken; exact ⟨grounded.mono, rest⟩
  | append receiver group job asker => cases taken; exact appendStep_grounded grounded rest
  | submit group asker => cases taken; exact submitStep_grounded grounded.mono closes' rest
  | drain group => cases taken; exact drainStep_grounded rest
  | settle f outcome => cases taken; exact settleStep_grounded grounded rest
  | query object site => cases taken; exact ⟨grounded.mono, rest⟩
  | openCall call metadata fault => cases taken; exact openCallStep_grounded rest
  | track call lane =>
    cases taken
    refine ⟨fun f eq => ?_, rest⟩
    cases eq
    exact Replied.mono grounded
  | evaluate r => cases taken; exact evaluateStep_grounded rest
  | poll => cases taken; exact pollStep_grounded rest
  | turn group => cases taken; exact turnStep_grounded rest
  | endTurn group => cases taken; exact endTurnStep_grounded rest
  | dropHandle => cases taken; exact dropHandleStep_grounded rest
  | shutdown => cases taken; exact shutdownStep_grounded rest
  | awaitIdle =>
    simp only [Frame.step, awaitIdleStep] at taken
    split at taken <;> cases taken
    exact ⟨.inr (by simp [Frame.after, Frame.event]), rest⟩
  | close => cases taken; exact closeStep_grounded rest
  | takeHandlers shutsDown | readListeners stopping =>
    cases taken
    exact ⟨Stopping.Grounded.mono grounded, rest⟩
  | runHandlers stopping =>
    cases taken
    simp only [runHandlersStep]
    split <;> exact ⟨Stopping.Grounded.mono grounded, rest⟩
  | askListeners stopping =>
    cases taken
    simp only [askListenersStep]
    split <;> exact ⟨Stopping.Grounded.mono grounded, rest⟩
  | openStop listener lane metadata stopping =>
    cases taken
    exact ⟨.inr (.inr (by simp [Frame.after, Frame.event])), Stopping.Grounded.mono grounded, rest⟩
  | awaitListeners stopping =>
    exact awaitListenersStep_grounded (Stopping.Grounded.mono grounded) rest taken
  | deliver reply | announce f | leave | discard job => cases taken; exact rest
  | _ => exact absurd rfl lingers

theorem Move.grounded {sight : Sight} {choice : Choice} {top : List (Frame W)} {p : Progress W}
    (move : Move client sight choice s top p)
    (grounded : Stacked (Frame.Grounded history) (top ++ below))
    (closes : s.queue.closed = true → ∃ futures, .closed futures ∈ history)
    (rest : Stacked
      (Frame.Grounded (history ++ [Move.event client sight.worker s below top])) below) :
    Stacked (Frame.Grounded (history ++ [Move.event client sight.worker s below top]))
      (p.frames ++ below) := by
  cases move with
  | receive reply role next => exact ⟨Role.Grounded.mono grounded.2.1, rest⟩
  | pass reply held => exact ⟨Reply.Grounded.mono grounded.1, rest⟩
  | act taken => exact Frame.step_grounded taken grounded.1 closes rest

end Operations

namespace State

def Grounded (history : List Event) (s : State W) : Prop :=
  ∀ t ∈ s.threads, Stacked (Frame.Grounded history) t.stack

namespace Trace

variable {client : Client W} {workers : Nat} {world : W} {kept : List ObjectId}
  {threads : List (Code W)} {s : State W} {history : List Event}

/-- The queue is closed only by closing it. -/
theorem closed_of_queue
    (trace : Trace client (State.start workers world kept threads) history s)
    (closed : s.shared.queue.closed = true) : ∃ futures, .closed futures ∈ history := by
  refine trace.keeps (fun history s => s.shared.queue.closed = true →
    ∃ futures, .closed futures ∈ history) (fun never => by cases never) ?_ closed
  intro before e moment ih now
  rw [moment.accounts.closed] at now
  cases e with
  | closed futures => exact ⟨futures, by simp⟩
  | _ =>
    obtain ⟨futures, mem⟩ := ih now
    exact ⟨futures, List.mem_append_left _ mem⟩

/-- All frames are grounded along every trace. -/
theorem grounded (trace : Trace client (State.start workers world kept threads) history s) :
    s.Grounded history := by
  refine trace.keeps (fun history s => s.Grounded history)
    (stacked_start trivial fun _ _ => trivial) ?_
  rintro before e ⟨s, s', thread, choice, trace, taken, rfl⟩ ih
  obtain ⟨acted⟩ := step_cases taken
  show s'.Grounded (before ++ [s.event client thread])
  refine stacked_step acted ih (fun _ _ => Frame.Grounded.mono) (fun stacked rest => ?_)
    fun _ _ => trivial
  rw [acted.event] at rest ⊢
  exact acted.move.grounded stacked trace.closed_of_queue rest

end Trace
end State
end Strands
