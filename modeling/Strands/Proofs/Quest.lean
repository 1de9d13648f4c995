/-
No request for arguments is lost, and none is answered twice.

A request is held by one frame, or by the callback of the future it waits for.  A deed
takes the requests `Deed.gone` away and brings `Deed.made` in, and `State.quests_step`
says that the requests of a state change by that and by nothing else.
-/
import Strands.Proofs.Plain

namespace Strands

variable {W : Type}

def Site.quests : Site W → List (Quest W)
  | omitted lookup => [.asking lookup]
  | expressions lookup pending => [.naming lookup pending]
  | _ => []

def Role.quests : Role W → List (Quest W)
  | query _ site => site.quests
  | _ => []

namespace Frame

@[simp] def quests : Frame W → List (Quest W)
  | running role _ | waiting role _ => role.quests
  | query _ site => site.quests
  | evaluate r => [.filling r]
  | _ => []

def questsOf (frames : List (Frame W)) : List (Quest W) := frames.flatMap quests

@[simp] theorem questsOf_nil : questsOf ([] : List (Frame W)) = [] := rfl

@[simp] theorem questsOf_cons (frame : Frame W) (frames : List (Frame W)) :
    questsOf (frame :: frames) = frame.quests ++ questsOf frames := rfl

@[simp] theorem questsOf_append (a b : List (Frame W)) :
    questsOf (a ++ b) = questsOf a ++ questsOf b := by
  simp [questsOf]

theorem quests_of_isPlain {frame : Frame W} (plain : frame.isPlain = true) : frame.quests = [] := by
  cases frame with
  | running role code | waiting role next => cases role <;> first | rfl | cases plain
  | _ => first | rfl | cases plain

end Frame

open Strands.Frame

theorem Plain.questsOf_eq {frames : List (Frame W)} (plain : Plain frames) :
    questsOf frames = [] :=
  List.flatMap_eq_nil_iff.2 fun frame mem => quests_of_isPlain (plain frame mem)

def Thread.questsOf (threads : List (Thread W)) : List (Quest W) :=
  threads.flatMap fun t => Frame.questsOf t.stack

def State.quests (s : State W) : List (Quest W) := Thread.questsOf s.threads ++ s.shared.quests

/-! ## One step -/

def Carries (s : Shared W) (top : List (Frame W)) (δ : Deed W) (p : Progress W) : Prop :=
  ∀ w : Quest W → Nat,
    weigh w (questsOf p.frames) + weigh w p.shared.quests + weigh w δ.gone.toList =
      weigh w (questsOf top) + weigh w s.quests + weigh w δ.made.toList

theorem Carries.of_shared {s : Shared W} {top : List (Frame W)} {δ : Deed W} {p : Progress W}
    (shared : p.shared.quests = s.quests)
    (frames : ∀ w : Quest W → Nat, weigh w (questsOf p.frames) + weigh w δ.gone.toList =
      weigh w (questsOf top) + weigh w δ.made.toList) : Carries s top δ p := by
  intro w
  have := frames w
  rw [shared]
  omega

theorem Shared.quests_addFuture (s : Shared W) (spec : FutureSpec) (callback : Callback W) :
    (s.addFuture spec callback).quests =
      s.quests ++ (Future.make s.futures.nextId spec callback).quests := by
  simp [quests, addFuture]

section Steps

variable {client : Client W} {s : Shared W}

theorem Next.questsOf_resume (next : Next W) (direct : Bool)
    (result : Except DomainError (List Value)) : questsOf (next.resume direct result) = [] := by
  cases next with
  | place call => cases result <;> rfl
  | client continuation => cases direct <;> rfl

theorem Next.questsOf_abandon (next : Next W) (panic : Panic) :
    questsOf (next.abandon panic) = [] := by
  cases next <;> rfl

theorem Next.questsOf_takenUp (next : Next W) : questsOf next.takenUp = [] := by
  cases next <;> rfl

theorem Site.answered_carries (object : ObjectId) (type : ObjectType W) (code : Code W)
    (site : Site W) :
    Carries s [.running (.query object site) code] (site.answeredDeed type)
      (site.answered s object type) := by
  cases site with
  | omitted lookup =>
    cases missing : type.omitted lookup.method lookup.args.length with
    | error e =>
      simp only [answered, answeredDeed, missing]
      refine .of_shared rfl fun w => ?_
      simp [Next.questsOf_resume, Role.quests, Site.quests, Deed.gone, Deed.made]
    | ok pending =>
      cases pending with
      | nil =>
        simp only [answered, answeredDeed, missing]
        refine .of_shared rfl fun w => ?_
        simp [Next.questsOf_resume, Role.quests, Site.quests, Deed.gone, Deed.made]
      | cons first others =>
        simp only [answered, answeredDeed, missing]
        refine .of_shared rfl fun w => ?_
        simp [Role.quests, Site.quests, Deed.gone, Deed.made]
        omega
  | expressions lookup pending =>
    refine .of_shared rfl fun w => ?_
    simp [answered, answeredDeed, Next.questsOf_takenUp, Role.quests, Site.quests, Deed.gone,
      Deed.made, Lookup.resolution]
    omega
  | listener stopping =>
    refine .of_shared rfl fun w => ?_
    simp only [answered]
    split <;> rfl
  | _ => exact .of_shared rfl fun w => rfl

theorem Site.panicked_carries (object : ObjectId) (panic : Panic) (code : Code W) (site : Site W) :
    Carries s [.running (.query object site) code] (site.panickedDeed panic)
      { shared := s, frames := site.panicked object panic } := by
  cases site with
  | omitted lookup | expressions lookup pending =>
    refine .of_shared rfl fun w => ?_
    simp [panicked, panickedDeed, Next.questsOf_abandon, Role.quests, Site.quests, Deed.gone,
      Deed.made]
  | _ => exact .of_shared rfl fun w => rfl

theorem Role.ended_carries (result : Except Panic Outcome) (code : Code W) (role : Role W) :
    Carries s [.running role code] (role.endedDeed client s result)
      (role.ended client s result) := by
  cases role with
  | query object site =>
    cases result with
    | ok outcome => exact site.answered_carries object _ code
    | error panic => exact site.panicked_carries object panic code
  | continuation | call receiver args =>
    refine .of_shared rfl fun w => ?_
    cases result <;> rfl
  | _ => exact .of_shared rfl fun w => rfl

theorem Request.serve_carries (sight : Sight) (request : Request) (role : Role W) (code : Code W)
    (next : Reply → Code W) :
    Carries s [.running role code] .other
      { request.serve client sight s with
        frames := (request.serve client sight s).frames ++ [.waiting role next] } := by
  cases request with
  | view future =>
    refine .of_shared rfl fun w => ?_
    simp only [serve]
    split <;> simp [Deed.gone, Deed.made]
  | wait future | waitAtMost future milliseconds =>
    refine .of_shared rfl fun w => ?_
    simp only [serve]
    split <;> simp [Deed.gone, Deed.made]
  | takeHandle =>
    simp only [serve]
    split <;> exact .of_shared rfl fun w => by simp [Deed.gone, Deed.made]
  | forget future =>
    refine .of_shared (s.quests_modifyFuture future fun _ => rfl) fun w => ?_
    simp [serve, Deed.gone, Deed.made]
  | _ =>
    refine .of_shared rfl fun w => ?_
    simp [serve, Deed.gone, Deed.made, Role.quests, Site.quests]

theorem Invocation.questsOf_dispatch (inv : Invocation) (mode : Mode)
    (callback : Outcome → Code W) : questsOf (inv.dispatch mode callback) = [] := by
  unfold dispatch
  split
  · split <;> rfl
  · rfl
  · rfl

theorem Code.step_carries {sight : Sight} {late : Bool} {role : Role W} {code : Code W}
    {p : Progress W} (taken : code.step client sight late s role = some p) :
    Carries s [.running role code] (code.deed client s role) p := by
  cases code with
  | finish outcome => cases taken; exact role.ended_carries (.ok outcome) _
  | panic payload => cases taken; exact role.ended_carries (.error payload) _
  | ask request next => cases taken; exact request.serve_carries sight role _ next
  | create spec callback next =>
    cases taken
    refine .of_shared ?_ fun w => by simp [deed, Deed.gone, Deed.made]
    rw [Shared.quests_addFuture]
    exact List.append_nil _
  | schedule place work future next =>
    cases taken
    refine .of_shared rfl fun w => ?_
    cases had : s.hasHandle future <;> simp [deed, had, Deed.gone, Deed.made]
  | invoke mode invocation callback next =>
    cases taken
    refine .of_shared rfl fun w => ?_
    simp [Invocation.questsOf_dispatch, deed, Deed.gone, Deed.made]
  | await ready next =>
    simp only [step] at taken
    split at taken <;> cases taken
    exact .of_shared rfl fun w => rfl
  | awaitAtMost milliseconds ready next =>
    simp only [step] at taken
    split at taken
    · cases taken
      exact .of_shared rfl fun w => rfl
    · split at taken <;> cases taken
      exact .of_shared rfl fun w => rfl
  | act update next | addHandler handler next | spawn thread next =>
    cases taken
    exact .of_shared rfl fun w => rfl
  | resolve receiver method args parent continuation next =>
    cases taken
    refine .of_shared rfl fun w => ?_
    simp [deed, Site.quests, Deed.gone, Deed.made]
    omega

theorem claimStep_carries (p : Placing W) :
    Carries s [.claim p] (Frame.deed client s (.claim p)) (claimStep s p) := by
  have silent : (Frame.deed client s (.claim p)).gone = none ∧
      (Frame.deed client s (.claim p)).made = none := by
    simp only [Frame.deed]
    split <;> exact ⟨rfl, rfl⟩
  refine .of_shared ?_ fun w => ?_
  · simp only [claimStep]
    split
    · exact s.quests_modifyFuture p.future fun _ => rfl
    · rfl
  · rw [silent.1, silent.2]
    simp only [claimStep]
    split
    · rfl
    · simp [(Asker.plain_answer _ _).questsOf_eq]

/-- A future's callback is notified of an outcome. -/
theorem settleStep_carries (numbered : ∀ f u, s.futures.get? f = some u → u.strand.id = f)
    (f : FutureId) (outcome : Outcome) :
    Carries s [.settle f outcome] (Frame.deed client s (.settle f outcome))
      (settleStep s f outcome) := by
  cases found : s.futures.get? f with
  | none =>
    simp only [settleStep, Frame.deed, found]
    exact .of_shared rfl fun w => rfl
  | some u =>
    have strand := numbered f u found
    have records (w : Quest W → Nat) :
        weigh w (s.modifyFuture f (·.complete outcome)).quests + weigh w u.quests =
          weigh w s.quests + weigh w (u.complete outcome).quests := by
      cases f with
      | zero => cases found
      | succ n => exact weigh_modify w Future.quests (·.complete outcome) found
    obtain ⟨strand', returnType, state, callback, notified, claimed, kept⟩ := u
    cases state with
    | some earlier =>
      simp only [settleStep, Frame.deed, found]
      exact .of_shared rfl fun w => rfl
    | none =>
      simp only [settleStep, Frame.deed, found]
      intro w
      have balance := records w
      obtain rfl : strand'.id = f := strand
      rcases callback with _ | callback
      · simp [Future.quests, Future.complete, Deed.gone, Deed.made] at balance ⊢
        omega
      · cases callback with
        | argument r =>
          cases outcome with
          | ok value =>
            simp [Future.quests, Future.complete, Callback.notify, Callback.deed, Deed.gone,
              Deed.made] at balance ⊢
            omega
          | error e =>
            simp [Future.quests, Future.complete, Callback.notify, Callback.deed, Deed.gone,
              Deed.made, Next.questsOf_resume] at balance ⊢
            omega
        | _ =>
          simp [Future.quests, Future.complete, Callback.notify, Callback.deed, Deed.gone,
            Deed.made, Role.quests] at balance ⊢
          omega

theorem evaluateStep_carries (r : Resolution W) :
    Carries s [.evaluate r] (Frame.deed client s (.evaluate r)) (evaluateStep s r) := by
  cases pending : r.pending with
  | nil =>
    simp only [evaluateStep, Frame.deed, pending]
    refine .of_shared rfl fun w => ?_
    simp [Next.questsOf_resume, Deed.gone, Deed.made]
  | cons omitted rest =>
    simp only [evaluateStep, Frame.deed, pending]
    intro w
    have added := s.quests_addFuture (r.spec omitted.param) (.argument { r with pending := rest })
    have whole : { r with pending := omitted :: rest } = r := by rw [← pending]
    have strand : (Future.make s.futures.nextId (r.spec omitted.param)
        (Callback.argument { r with pending := rest })).quests =
        [.awaiting s.futures.nextId { r with pending := rest }] := rfl
    have shared : ({ (s.addFuture (r.spec omitted.param) (.argument { r with pending := rest }))
        with handles := (s.addFuture (r.spec omitted.param)
          (.argument { r with pending := rest })).handles + 1 } : Shared W).quests =
        s.quests ++ [.awaiting s.futures.nextId { r with pending := rest }] := by
      rw [← strand, ← added]
      rfl
    rw [shared]
    simp [Deed.gone, Deed.made, whole]
    omega

theorem appendStep_carries (receiver : ObjectId) (group : GroupId) (job : Job W) (asker : Asker) :
    Carries s [.append receiver group job asker]
      (Frame.deed client s (.append receiver group job asker)) (appendStep s group job asker) := by
  simp only [appendStep]
  split
  · refine .of_shared rfl fun w => ?_
    dsimp only
    split <;>
      simp [Frame.deed, (Asker.plain_answer _ _).questsOf_eq, Deed.gone, Deed.made]
  · exact .of_shared rfl fun w => by
      simp [Frame.deed, Job.refuse, (Asker.plain_answer _ _).questsOf_eq, Deed.gone, Deed.made]

theorem openCallStep_carries (call : Call W) (metadata : Metadata) (fault : Option Panic) :
    Carries s [.openCall call metadata fault]
      (Frame.deed client s (.openCall call metadata fault))
      (openCallStep s call metadata fault) := by
  refine .of_shared ?_ fun w => ?_
  · simp only [openCallStep]
    rw [Shared.quests_addFuture]
    exact List.append_nil _
  · cases fault with
    | some panic => simp [openCallStep, Frame.deed, Deed.gone, Deed.made]
    | none =>
      cases mode : call.mode <;>
        simp [openCallStep, mode, Frame.deed, Site.quests, Deed.gone, Deed.made]

theorem pollStep_carries :
    Carries s [.poll] (Frame.deed client s .poll) (pollStep client s) := by
  rcases items : s.queue.items with _ | ⟨item, others⟩
  · simp only [pollStep, RunQueue.pop, Frame.deed, items]
    exact .of_shared rfl fun w => rfl
  · cases item <;> simp only [pollStep, RunQueue.pop, Frame.deed, items] <;>
      exact .of_shared rfl fun w => by
        simp [Job.run, Job.startDeed, Role.quests, Deed.gone, Deed.made]

theorem turnStep_carries (group : GroupId) :
    Carries s [.turn group] (Frame.deed client s (.turn group)) (turnStep client s group) := by
  cases found : s.groups[group]? with
  | none =>
    simp only [turnStep, Frame.deed, found]
    exact .of_shared rfl fun w => rfl
  | some g =>
    cases jobs : g.jobs <;> simp only [turnStep, Frame.deed, found, jobs, Group.next] <;>
      exact .of_shared rfl fun w => by
        simp [Job.run, Job.startDeed, Role.quests, Deed.gone, Deed.made]

theorem Frame.step_carries {sight : Sight} {choice : Choice} {frame : Frame W} {p : Progress W}
    (numbered : ∀ f u, s.futures.get? f = some u → u.strand.id = f)
    (taken : frame.step client sight choice s = some p) :
    Carries s [frame] (frame.deed client s) p := by
  by_cases still : frame.idles = true
  · obtain ⟨idle, deed⟩ := step_of_idles still taken
    have none : frame.quests = [] := by
      cases frame <;> first | rfl | cases still
    refine .of_shared idle.quests fun w => ?_
    rw [deed, idle.frames.questsOf_eq, questsOf_cons, none]
    rfl
  cases frame with
  | running role code => exact Code.step_carries taken
  | waiting role next => cases taken
  | claim p => cases taken; exact claimStep_carries p
  | enter p =>
    cases taken
    refine .of_shared rfl fun w => ?_
    simp only [enterStep]
    split <;> rfl
  | push job asker =>
    cases taken
    simp only [pushStep]
    split <;> exact .of_shared rfl fun w => by
      simp [Frame.deed, Job.refuse, (Asker.plain_answer _ _).questsOf_eq, Deed.gone, Deed.made]
  | checkOpen receiver job asker =>
    cases taken
    refine .of_shared rfl fun w => ?_
    simp only [checkOpenStep]
    split <;>
      simp [Frame.deed, Job.refuse, (Asker.plain_answer _ _).questsOf_eq, Deed.gone, Deed.made]
  | locate receiver job asker =>
    cases taken
    refine .of_shared ?_ fun w => rfl
    simp only [locateStep, Shared.locate]
    split <;> rfl
  | append receiver group job asker =>
    cases taken
    exact appendStep_carries receiver group job asker
  | settle f outcome => cases taken; exact settleStep_carries numbered f outcome
  | query object site =>
    cases taken
    exact .of_shared rfl fun w => by simp [queryStep, Frame.deed, Role.quests, Deed.gone, Deed.made]
  | openCall call metadata fault => cases taken; exact openCallStep_carries call metadata fault
  | track call lane =>
    cases taken
    refine .of_shared rfl fun w => ?_
    simp [trackStep, Frame.deed, OpenCall.lookup, Site.quests, Deed.gone, Deed.made]
  | evaluate r => cases taken; exact evaluateStep_carries r
  | poll => cases taken; exact pollStep_carries
  | turn group => cases taken; exact turnStep_carries group
  | askListeners stopping =>
    cases taken
    refine .of_shared rfl fun w => ?_
    simp only [askListenersStep]
    split <;> simp [Frame.deed, Site.quests, Deed.gone, Deed.made]
  | openStop listener lane metadata stopping =>
    cases taken
    refine .of_shared ?_ fun w => by simp [openStopStep, Frame.deed, Deed.gone, Deed.made]
    simp only [openStopStep]
    rw [Shared.quests_addFuture]
    exact List.append_nil _
  | _ => exact absurd rfl still

theorem Move.carries {sight : Sight} {choice : Choice} {top : List (Frame W)} {p : Progress W}
    (numbered : ∀ f u, s.futures.get? f = some u → u.strand.id = f)
    (move : Move client sight choice s top p) : Carries s top (Move.deed client s top) p := by
  cases move with
  | receive reply role next =>
    refine .of_shared (s.receive_idle (p := { shared := s.receive reply }) reply plain_nil
      rfl).quests fun w => ?_
    simp [Move.deed, Deed.gone, Deed.made]
  | pass reply held => exact .of_shared rfl fun w => by simp [Move.deed, Deed.gone, Deed.made]
  | act taken => exact Frame.step_carries numbered taken

end Steps

namespace State

/-- A step changes the requests of the whole state by what its deed takes away and brings
in. -/
theorem quests_step {client : Client W} {s s' : State W} {thread : ThreadId} {choice : Choice}
    (numbered : ∀ f u, s.shared.futures.get? f = some u → u.strand.id = f)
    (taken : s.step client thread choice = some s') (w : Quest W → Nat) :
    weigh w s'.quests + weigh w ((⟨s, thread⟩ : Beat W).deed client).gone.toList =
      weigh w s.quests + weigh w ((⟨s, thread⟩ : Beat W).deed client).made.toList := by
  obtain ⟨acted⟩ := step_cases taken
  have balance := acted.move.carries numbered w
  rw [← deed_of_acted acted] at balance
  have spawned : Thread.questsOf (acted.progress.spawned.map clientThread) = [] := by
    simp [Thread.questsOf, clientThread, Role.quests]
  rw [Thread.questsOf] at spawned
  simp only [quests, acted.threads, acted.threads', acted.shared', Thread.questsOf,
    List.flatMap_append, List.flatMap_cons, acted.stack, questsOf_append, weigh_append, spawned,
    weigh_nil]
  omega

/-- Nothing is asked for at the start. -/
theorem quests_start (workers : Nat) (world : W) (kept : List ObjectId) (threads : List (Code W)) :
    (State.start workers world kept threads).quests = [] := by
  have idle : Thread.questsOf (List.replicate workers (State.worker : Thread W)) = [] := by
    simp [Thread.questsOf, State.worker]
  have clients : Thread.questsOf (threads.map clientThread) = [] := by
    simp [Thread.questsOf, clientThread, Role.quests]
  simp only [Thread.questsOf] at idle clients
  simp [quests, start, Thread.questsOf, Shared.quests, idle, clients]

end State
end Strands
