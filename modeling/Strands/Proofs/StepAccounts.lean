/-
Every step keeps the accounts.

There is one lemma for each operation of the machine.  `Frame.step_balanced` collects
them, `Move.balanced` extends them to moves, and `State.step_accounts` to whole states,
whose stakes are those of all frames together with those of the queue, the lanes and
the callbacks.  Later proofs learn from it what happens to a future or a stake, and
look into no operation.
-/
import Strands.Proofs.Balance

namespace Strands

open Strands.Frame

variable {W : Type}

@[simp] theorem Asker.stakesOf_answer (asker : Asker) (result : Except ScheduleError Unit) :
    stakesOf (asker.answer result : List (Frame W)) = [] := by
  cases asker <;> rfl

theorem stakesOf_refuse (jobs : List (Job W)) :
    stakesOf (jobs.flatMap Job.refuse) = refusals (jobs.map Job.future) := by
  induction jobs with
  | nil => rfl
  | cons job rest ih => simp [Job.refuse, refusals, ih] 

section Placing

variable (client : Client W) (worker : Bool) (s : Shared W) (below : List (Frame W))

theorem claimStep_balanced (p : Placing W) :
    Balanced s [.claim p] (Frame.event client worker s below (.claim p)) (claimStep s p) := by
  cases found : s.futures.get? p.future with
  | none =>
    simp only [claimStep, Frame.event, found]
    exact ⟨fun w => by simp; omega, ⟨by simp [found], rfl⟩, rfl, rfl, trivial⟩
  | some u =>
    obtain ⟨strand, returnType, state, callback, notified, claimed, kept⟩ := u
    cases claimed with
    | true =>
      simp only [claimStep, Frame.event, found]
      exact ⟨fun w => by simp; omega, ⟨by simp [found], rfl⟩, rfl, rfl, trivial⟩
    | false =>
      simp only [claimStep, Frame.event, found]
      refine ⟨fun w => ?_, ⟨⟨_, found, rfl⟩, rfl⟩, rfl, rfl, trivial⟩
      have same := Futures.weigh_modify_of_callback s.futures p.future w Future.claim fun _ => rfl
      simp [Shared.stakes, Shared.modifyFuture, same]
      omega

theorem enterStep_balanced (p : Placing W) :
    Balanced s [.enter p] (Frame.event client worker s below (.enter p)) (enterStep s p) := by
  refine ⟨fun w => ?_, rfl, rfl, rfl, trivial⟩
  cases h : p.place <;> simp [enterStep, Frame.event, Shared.stakes, h] <;> omega

theorem pushStep_balanced (job : Job W) (asker : Asker) :
    Balanced s [.push job asker] (Frame.event client worker s below (.push job asker))
      (pushStep s job asker) := by
  cases open? : s.queue.closed with
  | true =>
    simp only [pushStep, Frame.event, RunQueue.push, open?, if_true]
    refine ⟨fun w => ?_, rfl, rfl, rfl, open?⟩
    simp [Job.refuse, refusals]
    omega
  | false =>
    simp only [pushStep, Frame.event, RunQueue.push, open?]
    refine ⟨fun w => ?_, rfl, rfl, open?.symm, trivial⟩
    simp [Shared.stakes]
    omega

theorem checkOpenStep_balanced (receiver : ObjectId) (job : Job W) (asker : Asker) :
    Balanced s [.checkOpen receiver job asker]
      (Frame.event client worker s below (.checkOpen receiver job asker))
      (checkOpenStep s receiver job asker) := by
  cases open? : s.queue.closed with
  | true =>
    simp only [checkOpenStep, Frame.event, open?, if_true]
    refine ⟨fun w => ?_, rfl, rfl, rfl, open?⟩
    simp [Job.refuse, refusals]
    omega
  | false =>
    simp only [checkOpenStep, Frame.event, open?]
    exact Balanced.quiet (fun w => by simp) rfl rfl rfl rfl

theorem locateStep_balanced (isAlive : ObjectId → Bool) (receiver : ObjectId) (job : Job W)
    (asker : Asker) :
    Balanced s [.locate receiver job asker]
      (Frame.event client worker s below (.locate receiver job asker))
      (locateStep isAlive s receiver job asker) := by
  cases found : s.table.get? receiver <;>
    simp only [locateStep, Frame.event, Shared.locate, found]
  all_goals exact ⟨fun w => by simp [Shared.stakes, Group.stakes], rfl, rfl, rfl, trivial⟩

theorem appendStep_balanced (receiver : ObjectId) (group : GroupId) (job : Job W) (asker : Asker) :
    Balanced s [.append receiver group job asker]
      (Frame.event client worker s below (.append receiver group job asker))
      (appendStep s group job asker) := by
  cases found : s.groups[group]? with
  | none =>
    simp only [appendStep, Frame.event, found]
    refine ⟨fun w => ?_, rfl, rfl, rfl, trivial⟩
    simp [Job.refuse, refusals]
    omega
  | some g =>
    simp only [appendStep, Frame.event, found]
    refine ⟨fun w => ?_, rfl, rfl, rfl, trivial⟩
    have lane := weigh_modify w Group.stakes (·.append job) found
    have longer : weigh w (g.append job).stakes = weigh w g.stakes + w (.job job.future) := by
      simp [Group.append, Group.stakes]
    cases taken : g.taken <;>
      simp [Shared.stakes, Shared.modifyGroup] at lane ⊢ <;> omega

theorem submitStep_balanced (group : GroupId) (asker : Asker) :
    Balanced s [.submit group asker] (Frame.event client worker s below (.submit group asker))
      (submitStep s group asker) := by
  cases open? : s.queue.closed with
  | true =>
    simp only [submitStep, Frame.event, RunQueue.push, open?, if_true]
    exact Balanced.quiet (fun w => by simp) rfl rfl rfl rfl
  | false =>
    simp only [submitStep, Frame.event, RunQueue.push, open?]
    refine ⟨fun w => ?_, rfl, rfl, open?.symm, trivial⟩
    simp [Shared.stakes]
    omega

theorem drainStep_balanced (group : GroupId) :
    Balanced s [.drain group] (Frame.event client worker s below (.drain group))
      (drainStep s group) := by
  cases found : s.groups[group]? with
  | none =>
    simp only [drainStep, Frame.event, found]
    refine ⟨fun w => ?_, rfl, rfl, rfl, trivial⟩
    simp [refusals]
    omega
  | some g =>
    simp only [drainStep, Frame.event, found]
    refine ⟨fun w => ?_, rfl, rfl, rfl, trivial⟩
    have lane := weigh_modify w Group.stakes Group.drain found
    have waiting : g.stakes = (g.jobs.map Job.future).map Stake.job := by
      simp [Group.stakes]
    have empty : g.drain.stakes = [] := rfl
    rw [waiting, empty] at lane
    simp [Shared.stakes, Shared.modifyGroup, stakesOf_refuse] at lane ⊢
    omega

end Placing

section Completing
variable (client : Client W) (worker : Bool) (s : Shared W) (below : List (Frame W))

/-- What a callback holds is passed on when it is notified, but for a call that fails
with its argument. -/
theorem Callback.weigh_notify (w : Stake → Nat) (outcome : Outcome) (callback : Callback W) :
    weigh w (stakesOf (callback.notify outcome)) +
        weigh w ((callback.failing outcome).map Stake.call).toList =
      weigh w callback.stakes +
        weigh w (((callback.failing outcome).map fun call =>
          [Stake.settle call, .guard, .handle]).getD []) := by
  cases callback with
  | silent => rfl
  | client notify => rfl
  | argument resolution =>
    cases outcome with
    | ok value => simp [notify, failing]
    | error e =>
      cases next : resolution.next <;>
        simp [notify, failing, Next.resume, Next.stakes, Next.call?, next]
      omega

theorem settleStep_balanced (future : FutureId) (outcome : Outcome) :
    Balanced s [.settle future outcome]
      (Frame.event client worker s below (.settle future outcome))
      (settleStep s future outcome) := by
  cases found : s.futures.get? future with
  | none =>
    simp only [settleStep, Frame.event, found]
    exact ⟨fun w => by simp; omega, ⟨by simp [found], rfl⟩, rfl, rfl, trivial⟩
  | some u =>
    obtain ⟨strand, returnType, state, callback, notified, claimed, kept⟩ := u
    cases state with
    | some earlier =>
      simp only [settleStep, Frame.event, found]
      exact ⟨fun w => by simp; omega, ⟨by simp [found], rfl⟩, rfl, rfl, trivial⟩
    | none =>
      simp only [settleStep, Frame.event, found]
      refine ⟨fun w => ?_, ⟨⟨_, callback, found, rfl, rfl, rfl⟩, rfl⟩, rfl, rfl, trivial⟩
      have records := Futures.weigh_modify_of_get? w (·.complete outcome) found
      cases callback with
      | none =>
        simp [Shared.stakes, Shared.modifyFuture, Future.stakes, Future.complete] at records ⊢
        omega
      | some callback =>
        have passed := callback.weigh_notify w outcome
        simp [Shared.stakes, Shared.modifyFuture, Future.stakes, Future.complete]
          at records passed ⊢
        omega

theorem leaveStep_balanced {frame : Frame W} (h : stakesOf [frame] = [.guard]) :
    Balanced s [frame] .left (leaveStep s) := by
  refine ⟨fun w => ?_, rfl, rfl, rfl, trivial⟩
  rw [h]
  simp [leaveStep, Shared.stakes]
  omega

theorem dropHandleStep_balanced :
    Balanced s [.dropHandle] (Frame.event client worker s below .dropHandle) (dropHandleStep s) := by
  refine ⟨fun w => ?_, rfl, rfl, rfl, trivial⟩
  by_cases last : s.handles = 1 <;>
    simp [dropHandleStep, Frame.event, Shared.stakes, last] <;> omega

end Completing

section Dispatching
variable (client : Client W) (worker : Bool) (s : Shared W) (below : List (Frame W))

theorem weigh_addFuture (w : Stake → Nat) (spec : FutureSpec) (callback : Callback W) :
    weigh w (s.addFuture spec callback).stakes = weigh w s.stakes + weigh w callback.stakes := by
  simp [Shared.stakes, Shared.addFuture, Future.make, Future.stakes]
  omega

theorem Future.make_fresh (id : FutureId) (spec : FutureSpec) (callback : Callback W) :
    (Future.make id spec callback).Fresh id := ⟨rfl, rfl, rfl, rfl, rfl, rfl⟩

theorem grows_addFuture (spec : FutureSpec) (callback : Callback W) :
    s.futures.Grows (s.addFuture spec callback).futures s.futures.nextId callback.call? :=
  ⟨rfl, _, Future.make_fresh _ spec callback, rfl, rfl⟩

theorem queryStep_balanced (object : ObjectId) (site : Site W) :
    Balanced s [.query object site] .other (queryStep client s object site) :=
  Balanced.quiet (fun w => by simp [queryStep]) rfl rfl rfl rfl

theorem openCallStep_balanced (call : Call W) (metadata : Metadata) (fault : Option Panic) :
    Balanced s [.openCall call metadata fault]
      (Frame.event client worker s below (.openCall call metadata fault))
      (openCallStep s call metadata fault) := by
  refine ⟨fun w => ?_, grows_addFuture s _ (.client call.callback), rfl, rfl, trivial⟩
  have added := weigh_addFuture s w (call.invocation.spec metadata) (.client call.callback)
  cases fault <;> cases mode : call.mode <;>
    simp [openCallStep, Frame.event, mode, added, OpenCall.future, FutureSpec.strand] <;> omega

theorem trackStep_balanced (call : OpenCall) (lane : Lane) :
    Balanced s [.track call lane] (Frame.event client worker s below (.track call lane))
      (trackStep s call lane) := by
  refine ⟨fun w => ?_, rfl, rfl, rfl, trivial⟩
  simp [trackStep, Frame.event, Shared.stakes, Next.stakes, Next.call?]
  omega

end Dispatching

section Dispatching
variable (client : Client W) (worker : Bool) (s : Shared W) (below : List (Frame W))

theorem Next.weigh_placed (w : Stake → Nat) (next : Next W) (direct : Bool) (args : List Value) :
    weigh w (stakesOf (next.resume direct (.ok args))) + weigh w next.placedEvent.gone =
      weigh w next.stakes + weigh w next.placedEvent.made := by
  cases next with
  | place call =>
    simp [resume, placedEvent, stakes, call?, Asker.isClient]
    omega
  | client continuation => cases direct <;> rfl

theorem Next.weigh_failed (w : Stake → Nat) (next : Next W) (direct : Bool) (e : DomainError) :
    weigh w (stakesOf (next.resume direct (.error e))) + weigh w (next.failedEvent e).gone =
      weigh w next.stakes + weigh w (next.failedEvent e).made := by
  cases next with
  | place call =>
    simp [resume, failedEvent, stakes, call?]
    omega
  | client continuation => cases direct <;> rfl

theorem Next.weigh_abandoned (w : Stake → Nat) (next : Next W) (panic : Panic) (e : DomainError) :
    weigh w (stakesOf (next.abandon panic)) + weigh w (next.failedEvent e).gone =
      weigh w next.stakes + weigh w (next.failedEvent e).made := by
  cases next with
  | place call =>
    simp [abandon, failedEvent, stakes, call?]
    omega
  | client continuation => rfl

/-- Handing over what a resolution came to touches nothing but stakes. -/
theorem Balanced.resumed {s : Shared W} {top : List (Frame W)} {p : Progress W} {next : Next W} {e : Event}
    (event : e = next.placedEvent ∨ ∃ error, e = next.failedEvent error)
    (stakes : ∀ w, weigh w (stakesOf p.frames) + weigh w e.gone =
      weigh w (stakesOf top) + weigh w e.made)
    (shared : p.shared = s) : Balanced s top e p := by
  subst shared
  refine ⟨fun w => ?_, ?_, ?_, ?_, ?_⟩
  · have := stakes w
    omega
  all_goals rcases event with rfl | ⟨error, rfl⟩ <;> cases next <;> trivial

theorem evaluateStep_balanced (r : Resolution W) :
    Balanced s [.evaluate r] (Frame.event client worker s below (.evaluate r))
      (evaluateStep s r) := by
  cases pending : r.pending with
  | nil =>
    simp only [evaluateStep, Frame.event, pending]
    refine Balanced.resumed (.inl rfl) (fun w => ?_) rfl
    have := r.next.weigh_placed w false r.args
    simp at this ⊢
    omega
  | cons omitted rest =>
    simp only [evaluateStep, Frame.event, pending]
    refine ⟨fun w => ?_, grows_addFuture s _ (.argument { r with pending := rest }), rfl, rfl,
      trivial⟩
    have added := weigh_addFuture s w (r.spec omitted.param) (.argument { r with pending := rest })
    simp [Shared.stakes, Asker.isClient] at added ⊢
    omega

theorem Site.answered_balanced (object : ObjectId) (type : ObjectType W) (code : Code W)
    (site : Site W) :
    Balanced s [.running (.query object site) code] (site.answeredEvent type)
      (site.answered s object type) := by
  cases site with
  | metadata call => exact Balanced.quiet (fun w => rfl) rfl rfl rfl rfl
  | lane call => exact Balanced.quiet (fun w => rfl) rfl rfl rfl rfl
  | omitted lookup =>
    cases missing : type.omitted lookup.method lookup.args.length with
    | error e =>
      simp only [answered, answeredEvent, missing]
      refine Balanced.resumed (.inr ⟨e, rfl⟩) (fun w => ?_) rfl
      have := lookup.next.weigh_failed w true e
      simp at this ⊢
      omega
    | ok pending =>
      cases pending with
      | nil =>
        simp only [answered, answeredEvent, missing]
        refine Balanced.resumed (.inl rfl) (fun w => ?_) rfl
        have := lookup.next.weigh_placed w true lookup.args
        simp at this ⊢
        omega
      | cons first rest =>
        simp only [answered, answeredEvent, missing]
        exact Balanced.quiet (fun w => by simp) rfl rfl rfl rfl
  | expressions lookup pending =>
    refine ⟨fun w => ?_, rfl, rfl, rfl, trivial⟩
    cases next : lookup.next <;>
      simp [answered, answeredEvent, Next.takenUp, Shared.stakes, next] <;> omega
  | listener stopping =>
    refine Balanced.quiet (fun w => ?_) rfl rfl rfl rfl
    cases method : type.method? stopMethod <;> simp [answered, method]
  | client => exact Balanced.quiet (fun w => rfl) rfl rfl rfl rfl

theorem Site.panicked_balanced (object : ObjectId) (panic : Panic) (code : Code W)
    (site : Site W) :
    Balanced s [.running (.query object site) code] (site.panickedEvent panic)
      { shared := s, frames := site.panicked object panic } := by
  cases site with
  | metadata call => exact Balanced.quiet (fun w => rfl) rfl rfl rfl rfl
  | lane call =>
    refine ⟨fun w => ?_, rfl, rfl, rfl, trivial⟩
    simp [panicked, panickedEvent]
    omega
  | omitted lookup | expressions lookup pending =>
    refine Balanced.resumed (.inr ⟨.ofPanic panic, rfl⟩) (fun w => ?_) rfl
    have := lookup.next.weigh_abandoned w panic (.ofPanic panic)
    simp [panicked, panickedEvent] at this ⊢
    omega
  | listener stopping => exact Balanced.quiet (fun w => rfl) rfl rfl rfl rfl
  | client => exact Balanced.quiet (fun w => rfl) rfl rfl rfl rfl

theorem Role.ended_balanced (role : Role W) (code : Code W) (result : Except Panic Outcome) :
    Balanced s [.running role code] (role.endedEvent client s result)
      (role.ended client s result) := by
  cases role with
  | task job =>
    refine ⟨fun w => ?_, rfl, rfl, rfl, trivial⟩
    simp [ended, endedEvent]
    omega
  | query object site =>
    cases result with
    | ok outcome => exact site.answered_balanced s object (client.typeOf object s.world) code
    | error panic => exact site.panicked_balanced s object panic code
  | continuation | call receiver args =>
    cases result <;> exact Balanced.quiet (fun w => rfl) rfl rfl rfl rfl
  | thread | callback outcome | continued | handler stopping =>
    exact Balanced.quiet (fun w => rfl) rfl rfl rfl rfl

end Dispatching

section Working
variable (client : Client W) (worker : Bool) (s : Shared W) (below : List (Frame W))

theorem pollStep_balanced :
    Balanced s [.poll] (Frame.event client worker s below .poll) (pollStep client s) := by
  cases items : s.queue.items with
  | nil =>
    simp only [pollStep, Frame.event, RunQueue.pop, items]
    exact Balanced.quiet (fun w => rfl) rfl rfl rfl rfl
  | cons item rest =>
    cases item with
    | job job =>
      simp only [pollStep, Frame.event, RunQueue.pop, items]
      refine ⟨fun w => ?_, rfl, rfl, rfl, trivial⟩
      simp [Job.run, Shared.stakes, items]
      omega
    | group group =>
      simp only [pollStep, Frame.event, RunQueue.pop, items]
      refine ⟨fun w => ?_, rfl, rfl, rfl, trivial⟩
      simp [Shared.stakes, items]

theorem turnStep_balanced (group : GroupId) :
    Balanced s [.turn group] (Frame.event client worker s below (.turn group))
      (turnStep client s group) := by
  cases found : s.groups[group]? with
  | none =>
    simp only [turnStep, Frame.event, found]
    refine ⟨fun w => ?_, rfl, rfl, rfl, trivial⟩
    simp
    omega
  | some g =>
    have lane w := weigh_modify w Group.stakes (fun g => g.next.2) found
    cases jobs : g.jobs with
    | nil =>
      simp only [turnStep, Frame.event, Group.next, found, jobs]
      refine ⟨fun w => ?_, rfl, rfl, rfl, trivial⟩
      have := lane w
      simp [Shared.stakes, Shared.modifyGroup, Group.next, Group.stakes, jobs] at this ⊢
      omega
    | cons job rest =>
      simp only [turnStep, Frame.event, Group.next, found, jobs]
      refine ⟨fun w => ?_, rfl, rfl, rfl, trivial⟩
      have := lane w
      simp [Shared.stakes, Shared.modifyGroup, Group.next, Group.stakes, Job.run, jobs] at this ⊢
      omega

theorem endTurnStep_balanced (group : GroupId) :
    Balanced s [.endTurn group] (Frame.event client worker s below (.endTurn group))
      (endTurnStep s group) := by
  cases found : s.groups[group]? with
  | none =>
    simp only [endTurnStep, Frame.event, found]
    refine ⟨fun w => ?_, rfl, rfl, rfl, trivial⟩
    simp
    omega
  | some g =>
    have lane w := weigh_modify w Group.stakes Group.endTurn found
    have same : g.endTurn.stakes = g.stakes := rfl
    cases waiting : g.jobs.isEmpty <;>
      simp only [endTurnStep, Frame.event, found, waiting]
    all_goals
      refine ⟨fun w => ?_, rfl, rfl, rfl, trivial⟩
      have := lane w
      rw [same] at this
      simp [Shared.stakes, Shared.modifyGroup] at this ⊢
      omega
end Working

section Stopping
variable (client : Client W) (worker : Bool) (s : Shared W) (below : List (Frame W))

theorem weigh_refuse (w : Stake → Nat) (items : List (Item W)) :
    weigh w (stakesOf (items.flatMap Item.refuse)) +
        weigh w ((Item.futures items).map Stake.job) =
      weigh w (items.map Item.stake) + weigh w (refusals (Item.futures items)) := by
  induction items with
  | nil => rfl
  | cons item rest ih =>
    cases item with
    | job job =>
      simp [Item.refuse, Job.refuse, Item.futures, refusals] at ih ⊢
      omega
    | group group =>
      simp [Item.refuse, Item.futures, refusals] at ih ⊢
      omega

theorem closeStep_balanced :
    Balanced s [.close] (Frame.event client worker s below .close) (closeStep s) := by
  refine ⟨fun w => ?_, rfl, rfl, rfl, trivial⟩
  have := weigh_refuse w s.queue.items
  simp [closeStep, Frame.event, Shared.stakes, RunQueue.close] at this ⊢
  omega

theorem openStopStep_balanced (listener : ObjectId) (lane : Lane) (metadata : Metadata)
    (stopping : Stopping W) :
    Balanced s [.openStop listener lane metadata stopping]
      (Frame.event client worker s below (.openStop listener lane metadata stopping))
      (openStopStep s listener lane metadata stopping) := by
  refine ⟨fun w => ?_, grows_addFuture s _ .silent, rfl, rfl, trivial⟩
  have added := weigh_addFuture s w (stopSpec listener metadata) .silent
  simp [openStopStep, Frame.event, Asker.isClient] at added ⊢
  omega

theorem awaitListenersStep_balanced {stopping : Stopping W} {p : Progress W}
    (taken : awaitListenersStep s stopping = some p) :
    Balanced s [.awaitListeners stopping] .other p := by
  unfold awaitListenersStep at taken
  split at taken
  · cases taken
    refine Balanced.quiet (fun w => ?_) rfl rfl rfl rfl
    cases stopping.shutsDown <;> rfl
  · split at taken <;> cases taken
    exact Balanced.quiet (fun w => rfl) rfl rfl rfl rfl

theorem Request.serve_balanced (sight : Sight) (request : Request) (role : Role W)
    (next : Reply → Code W) :
    Balanced s [.running role (.ask request next)] (request.event s)
      { request.serve client sight s with
        frames := (request.serve client sight s).frames ++ [.waiting role next] } := by
  cases request with
  | forget future =>
    refine ⟨fun w => ?_, rfl, rfl, rfl, trivial⟩
    have := Futures.weigh_modify_of_callback s.futures future w Future.forget fun _ => rfl
    simp [serve, event, Shared.stakes, Shared.modifyFuture, this]
  | takeHandle =>
    by_cases gone : s.handles = 0 <;> simp only [serve, event, gone, if_true, if_false]
    · exact Balanced.quiet (fun w => by simp) rfl rfl rfl rfl
    · exact ⟨fun w => by simp [Shared.stakes], rfl, rfl, rfl, trivial⟩
  | dropHandle =>
    refine ⟨fun w => ?_, rfl, rfl, rfl, trivial⟩
    simp [serve, event]
    omega
  | sweep =>
    refine ⟨fun w => ?_, rfl, rfl, rfl, trivial⟩
    simp [serve, event, Shared.sweep, Shared.stakes]
  | stop | shutdown => exact ⟨fun w => by simp [serve, event], rfl, rfl, rfl, trivial⟩
  | view future =>
    refine Balanced.quiet (fun w => ?_) rfl rfl rfl rfl
    simp only [serve]
    split <;> simp
  | wait future | waitAtMost future milliseconds =>
    refine Balanced.quiet (fun w => ?_) rfl rfl rfl rfl
    cases had : s.hasHandle future <;> simp [serve, had]
  | _ => exact Balanced.quiet (fun w => by simp [serve]) rfl rfl rfl rfl

end Stopping

section Steps

variable {client : Client W} {s : Shared W}

theorem Code.step_balanced {sight : Sight} {late : Bool} {role : Role W} {code : Code W}
    {p : Progress W} (taken : code.step client sight late s role = some p) :
    Balanced s [.running role code] (code.event client s role) p := by
  cases code with
  | finish outcome =>
    cases taken
    exact role.ended_balanced client s _ (.ok outcome)
  | panic payload =>
    cases taken
    exact role.ended_balanced client s _ (.error payload)
  | ask request next =>
    cases taken
    exact request.serve_balanced client s sight role next
  | create spec callback next =>
    cases taken
    refine ⟨fun w => ?_, grows_addFuture s spec (.client callback), rfl, rfl, trivial⟩
    have added := weigh_addFuture s w spec (.client callback)
    simp [event] at added ⊢
    omega
  | schedule place work future next =>
    cases taken
    cases had : s.hasHandle future with
    | false =>
      simp only [event, had]
      exact Balanced.quiet (fun w => by simp) rfl rfl rfl rfl
    | true =>
      simp only [event, had]
      refine ⟨fun w => ?_, ⟨?_, rfl⟩, rfl, rfl, trivial⟩
      · simp [Asker.isClient]
        omega
      · unfold Shared.hasHandle at had
        split at had
        · exact ⟨_, by assumption, had⟩
        · cases had
  | invoke mode invocation callback next =>
    cases taken
    refine Balanced.quiet (fun w => ?_) rfl rfl rfl rfl
    simp only [Invocation.dispatch]
    split
    · split <;> simp
    · simp [Invocation.reject]
    · simp [Invocation.reject]
  | await ready next =>
    simp only [step] at taken
    split at taken <;> cases taken
    exact Balanced.quiet (fun w => rfl) rfl rfl rfl rfl
  | awaitAtMost milliseconds ready next =>
    simp only [step] at taken
    split at taken
    · cases taken
      exact Balanced.quiet (fun w => rfl) rfl rfl rfl rfl
    · split at taken <;> cases taken
      exact Balanced.quiet (fun w => rfl) rfl rfl rfl rfl
  | act update next | addHandler handler next | spawn thread next =>
    cases taken
    exact Balanced.quiet (fun w => rfl) rfl rfl rfl rfl
  | resolve receiver method args parent continuation next =>
    cases taken
    exact Balanced.quiet (fun w => by simp [Next.stakes, Next.call?]) rfl rfl rfl rfl

/-- Receiving a future marks it as the client's, and changes nothing else. -/
theorem Shared.receive_balanced (s : Shared W) (reply : Reply) {top : List (Frame W)}
    {p : Progress W} (shared : p.shared = s.receive reply)
    (passed : ∀ w, weigh w (stakesOf p.frames) + weigh w (Frame.deliver reply : Frame W).stakes =
      weigh w (stakesOf top)) :
    Balanced s top reply.event p := by
  cases reply with
  | future made =>
    refine ⟨fun w => ?_, ?_, ?_, ?_, trivial⟩
    · have := Futures.weigh_modify_of_callback s.futures made w Future.keep fun _ => rfl
      have := passed w
      rw [shared]
      simp [receive, Reply.event, Shared.stakes, Shared.modifyFuture] at *
      omega
    all_goals rw [shared]; rfl
  | placed made result =>
    refine ⟨fun w => ?_, ?_, ?_, ?_, trivial⟩
    · have := passed w
      rw [shared]
      simp [receive, Reply.event] at *
      omega
    all_goals rw [shared]; rfl
  | _ =>
    refine Balanced.quiet (fun w => ?_) ?_ ?_ ?_ ?_
    · have := passed w
      simp at this
      exact this
    all_goals rw [shared]; rfl

theorem stakes_of_emptyHanded {frame : Frame W} (empty : frame.isEmptyHanded = true) :
    frame.stakes = [] := by
  cases frame with
  | deliver reply => cases reply <;> first | rfl | cases empty
  | _ => first | rfl | cases empty

theorem stakesOf_of_emptyHanded {frames : List (Frame W)}
    (empty : ∀ frame ∈ frames, frame.isEmptyHanded = true) : stakesOf frames = [] :=
  List.flatMap_eq_nil_iff.2 fun frame mem => stakes_of_emptyHanded (empty frame mem)

/-- A step of no consequence has none for what is accounted for. -/
theorem Lingering.balanced {top : List (Frame W)} {p : Progress W} (lingering : Lingering s p)
    (nothing : stakesOf top = []) : Balanced s top .other p := by
  refine Balanced.quiet (fun w => ?_) ?_ ?_ ?_ ?_
  · rw [stakesOf_of_emptyHanded lingering.frames, nothing]
  all_goals rw [lingering.shared]

theorem Frame.step_balanced (worker : Bool) (below : List (Frame W)) {sight : Sight} {choice : Choice} {frame : Frame W} {p : Progress W}
    (taken : frame.step client sight choice s = some p) :
    Balanced s [frame] (frame.event client worker s below) p := by
  by_cases lingers : frame.lingers = true
  · rw [event_of_lingers lingers]
    refine (step_of_lingers lingers taken).balanced (stakesOf_of_emptyHanded fun other mem => ?_)
    obtain rfl := List.mem_singleton.1 mem
    exact isEmptyHanded_of_lingers lingers
  cases frame with
  | running role code => exact Code.step_balanced taken
  | waiting role next => cases taken
  | deliver reply =>
    cases taken
    exact s.receive_balanced reply rfl fun w => by simp
  | claim placing => cases taken; exact claimStep_balanced client worker s below placing
  | enter placing => cases taken; exact enterStep_balanced client worker s below placing
  | push job asker => cases taken; exact pushStep_balanced client worker s below job asker
  | checkOpen receiver job asker =>
    cases taken; exact checkOpenStep_balanced client worker s below receiver job asker
  | locate receiver job asker =>
    cases taken; exact locateStep_balanced client worker s below sight.isAlive receiver job asker
  | append receiver group job asker =>
    cases taken; exact appendStep_balanced client worker s below receiver group job asker
  | submit group asker => cases taken; exact submitStep_balanced client worker s below group asker
  | drain group => cases taken; exact drainStep_balanced client worker s below group
  | settle future outcome =>
    cases taken; exact settleStep_balanced client worker s below future outcome
  | announce future =>
    cases taken
    refine ⟨fun w => ?_, rfl, rfl, rfl, trivial⟩
    have := Futures.weigh_modify_of_callback s.futures future w Future.announce fun _ => rfl
    simp [Frame.event, Shared.stakes, Shared.modifyFuture, this]
    omega
  | leave | discard job => cases taken; exact leaveStep_balanced s rfl
  | dropHandle => cases taken; exact dropHandleStep_balanced client worker s below
  | query object site => cases taken; exact queryStep_balanced client s object site
  | openCall call metadata fault =>
    cases taken; exact openCallStep_balanced client worker s below call metadata fault
  | track call lane => cases taken; exact trackStep_balanced client worker s below call lane
  | evaluate resolution => cases taken; exact evaluateStep_balanced client worker s below resolution
  | poll => cases taken; exact pollStep_balanced client worker s below
  | turn group => cases taken; exact turnStep_balanced client worker s below group
  | endTurn group => cases taken; exact endTurnStep_balanced client worker s below group
  | shutdown =>
    cases taken
    refine ⟨fun w => ?_, rfl, rfl, rfl, trivial⟩
    cases raised : s.flag <;> cases sight.worker <;>
      simp [shutdownStep, Frame.event, raised]
  | awaitIdle =>
    simp only [Frame.step, awaitIdleStep] at taken
    split at taken <;> cases taken
    rename_i idle
    exact ⟨fun w => by simp [Frame.event], rfl, rfl, rfl, idle⟩
  | close => cases taken; exact closeStep_balanced client worker s below
  | takeHandlers shutsDown | readListeners stopping =>
    cases taken
    exact Balanced.quiet (fun w => rfl) rfl rfl rfl rfl
  | runHandlers stopping =>
    cases taken
    refine Balanced.quiet (fun w => ?_) rfl rfl rfl rfl
    cases left : stopping.handlers <;> simp [runHandlersStep, left]
  | askListeners stopping =>
    cases taken
    refine Balanced.quiet (fun w => ?_) rfl rfl rfl rfl
    cases left : stopping.listeners <;> simp [askListenersStep, left]
  | openStop listener lane metadata stopping =>
    cases taken; exact openStopStep_balanced client worker s below listener lane metadata stopping
  | awaitListeners stopping => exact awaitListenersStep_balanced s taken
  | _ => exact absurd rfl lingers

theorem Move.balanced (worker : Bool) (below : List (Frame W)) {sight : Sight} {choice : Choice} {top : List (Frame W)} {p : Progress W}
    (move : Move client sight choice s top p) :
    Balanced s top (Move.event client worker s below top) p := by
  cases move with
  | receive reply role next =>
    refine s.receive_balanced reply rfl fun w => ?_
    simp
    omega
  | pass reply held =>
    exact Balanced.quiet (fun w => by simp) rfl rfl rfl rfl
  | act taken => exact Frame.step_balanced worker below taken

end Steps

namespace State

structure Accounts (s s' : State W) (e : Event) : Prop where
  stakes : ∀ w, weigh w s'.stakes + weigh w e.gone = weigh w s.stakes + weigh w e.made
  futures : e.Writes s.shared.futures s'.shared.futures
  inFlight : s'.shared.inFlight = e.flight s.shared.inFlight
  closed : s'.shared.queue.closed = e.closes s.shared.queue.closed
  finds : e.Finds s.shared

theorem step_accounts {client : Client W} {s s' : State W} {thread : ThreadId} {choice : Choice}
    (h : s.step client thread choice = some s') :
    Accounts s s' (s.event client thread) := by
  obtain ⟨acted⟩ := step_cases h
  have balanced := acted.move.balanced acted.actor.worker acted.below
  rw [← acted.event] at balanced
  refine ⟨fun w => ?_, ?_, ?_, ?_, balanced.finds⟩
  · have balance := balanced.stakes w
    have spawned : Thread.stakesOf (acted.progress.spawned.map clientThread) = [] := by
      simp [Thread.stakesOf, clientThread]
    simp only [stakes, acted.threads, acted.threads', acted.shared', Thread.stakesOf,
      List.flatMap_append, List.flatMap_cons, acted.stack, stakesOf_append, weigh_append]
    rw [Thread.stakesOf] at spawned
    rw [spawned]
    simp only [weigh_nil]
    omega
  all_goals rw [acted.shared']
  · exact balanced.futures
  · exact balanced.inFlight
  · exact balanced.closed

end State
end Strands
