/-
What a graceful stop does, step by step.

A graceful stop is a frame that stays on its thread's stack, above what called for it,
until it has its report.  Each of its steps leaves at most one `Note`, and an `Account`
is what all of them come to: the handlers it ran and how they ended, what it found when it
asked each listener for its type, and what it heard from those it could stop.  The report
is computed from the account, `Account.report`, with nothing of the steps left in it.

`Standing` says where a stop stands after some notes, and `Standing.step` that its own
steps lead from one standing to the next until it reports.
-/
import Strands.Proofs.Vouched

namespace Strands

variable {W : Type}

/-! ## Notes -/

def stopPlacing (listener : ObjectId) (lane : Lane) (future : FutureId) : Placing W where
  place := lane.placement listener
  task := .stop listener
  future := future
  asker := .nobody

/-- What a graceful stop does in a step of its own. -/
inductive Note (W : Type) where
  /-- It took the handlers out of the registry. -/
  | took (handlers : List (Strand → Code W))
  /-- It read the listeners of the registry. -/
  | read (listeners : List ObjectId)
  | began (index : Nat) (handler : Strand → Code W)
  | ended (result : Except Panic Outcome)
  /-- It asked a listener for its type. -/
  | consulted (listener : ObjectId)
  | panicked (listener : ObjectId) (panic : Panic)
  | answered (listener : ObjectId) (type : ObjectType W)
  | scheduled (placing : Placing W)
  /-- The outcome of a listener's stop method came in. -/
  | heard (listener : ObjectId) (future : FutureId) (outcome : Outcome)
  | reported (report : StopReport)

def Role.note (client : Client W) (s : Shared W) (result : Except Panic Outcome) :
    Role W → Option (Note W)
  | handler _ => some (.ended result)
  | query listener (.listener _) =>
    match result with
    | .ok _ => some (.answered listener (client.typeOf listener s.world))
    | .error panic => some (.panicked listener panic)
  | _ => none

def Frame.note (client : Client W) (s : Shared W) : Frame W → Option (Note W)
  | running role code => code.result?.bind fun result => role.note client s result
  | query listener (.listener _) => some (.consulted listener)
  | takeHandlers _ => some (.took s.registry.handlers)
  | readListeners _ => some (.read s.registry.listeners)
  | runHandlers stopping => stopping.handlers.head?.map (.began stopping.report.handlersRun)
  | openStop listener lane _ _ => some (.scheduled (stopPlacing listener lane s.futures.nextId))
  | awaitListeners stopping =>
    match stopping.asked with
    | [] => some (.reported stopping.report)
    | (listener, future) :: _ =>
      match s.futures.get? future with
      | some { notified := true, state := some outcome, .. } =>
        some (.heard listener future outcome)
      | _ => none
  | _ => none

def Note.answers : Note W → Bool
  | ended _ | panicked _ _ | answered _ _ => true
  | _ => false

theorem Frame.answers_of_running {client : Client W} {s : Shared W} {role : Role W}
    {code : Code W} {note : Note W}
    (noted : (Frame.running role code).note client s = some note) : note.answers = true := by
  obtain ⟨result, _, noted⟩ := Option.bind_eq_some_iff.1 noted
  cases role with
  | query object site =>
    cases site with
    | listener stopping => cases result <;> cases noted <;> rfl
    | _ => cases noted
  | handler stopping => cases noted; rfl
  | _ => cases noted

def Note.Shows (s : Shared W) (δ : Deed W) : Note W → Prop
  | took handlers => s.registry.handlers = handlers
  | read listeners => s.registry.listeners = listeners
  | scheduled p => δ = .asked p ∧ ∃ listener lane, p = stopPlacing listener lane p.future
  | heard _ f outcome => ∃ u, s.futures.get? f = some u ∧ u.state = some outcome
  | _ => True

theorem Frame.shows {client : Client W} {s : Shared W} {frame : Frame W} {note : Note W}
    (noted : frame.note client s = some note) : note.Shows s (frame.deed client s) := by
  cases frame with
  | running role code =>
    have answers := Frame.answers_of_running noted
    cases note <;> trivial
  | query object site => cases site <;> cases noted; trivial
  | takeHandlers shutsDown | readListeners stopping => cases noted; exact rfl
  | runHandlers stopping =>
    obtain ⟨_, _, rfl⟩ := Option.map_eq_some_iff.1 noted
    trivial
  | openStop listener lane metadata stopping =>
    cases noted
    exact ⟨rfl, listener, lane, rfl⟩
  | awaitListeners stopping =>
    simp only [Frame.note] at noted
    split at noted
    · cases noted
      trivial
    · split at noted
      · rename_i found
        cases noted
        exact ⟨_, found, rfl⟩
      · cases noted
  | _ => cases noted

def Frame.isClients : Frame W → Bool
  | running _ _ | waiting _ _ => true
  | _ => false

/-! ## Accounts -/

/-- A stop handler that has run. -/
structure Finish (W : Type) where
  handler : Strand → Code W
  result : Except Panic Outcome

/-- What came of asking a listener for its type. -/
inductive Visit (W : Type) where
  | panicked (listener : ObjectId) (panic : Panic)
  /-- The type has no stop method. -/
  | skipped (listener : ObjectId) (type : ObjectType W)
  | asked (listener : ObjectId) (type : ObjectType W) (future : FutureId)

/-- A listener's stop method was called and its outcome waited for. -/
structure Heard where
  listener : ObjectId
  future : FutureId
  outcome : Outcome

/-- What a graceful stop did, in order. -/
structure Account (W : Type) where
  ran : List (Finish W) := []
  visits : List (Visit W) := []
  heard : List Heard := []

def StopStage.failure? (stage : StopStage) : Outcome → Option StopFailure
  | .ok _ => none
  | .error e => some ⟨stage, e⟩

namespace Finish

def notes (index : Nat) (r : Finish W) : List (Note W) := [.began index r.handler, .ended r.result]

/-- The handler ran on a strand of its own, and ended as its code can. -/
def Sound (index : Nat) (r : Finish W) : Prop := (r.handler (handlerStrand index)).CanEnd r.result

end Finish

namespace Visit

def listener : Visit W → ObjectId
  | panicked l _ | skipped l _ | asked l _ _ => l

def request? : Visit W → Option (ObjectId × FutureId)
  | asked l _ f => some (l, f)
  | _ => none

def failure? : Visit W → Option StopFailure
  | panicked l panic => some ⟨.listener l, .ofPanic panic⟩
  | _ => none

/-- The unit that calls the stop method goes to the lane that the type says. -/
def notes : Visit W → List (Note W)
  | panicked l panic => [.consulted l, .panicked l panic]
  | skipped l type => [.consulted l, .answered l type]
  | asked l type f =>
    [.consulted l, .answered l type, .scheduled (stopPlacing l (type.lane stopMethod) f)]

/-- The listener was called if its type was found and has the stop method. -/
def Sound (client : Client W) : Visit W → Prop
  | panicked l panic => client.CanFault l panic
  | skipped l type => (∃ world, type = client.typeOf l world) ∧ type.method? stopMethod = none
  | asked l type _ =>
    (∃ world, type = client.typeOf l world) ∧ (type.method? stopMethod).isSome

end Visit

namespace Heard

def request (h : Heard) : ObjectId × FutureId := (h.listener, h.future)

def note (h : Heard) : Note W := .heard h.listener h.future h.outcome

def failure? (h : Heard) : Option StopFailure := StopStage.failure? (.listener h.listener) h.outcome

end Heard

namespace Account

def notes (a : Account W) : List (Note W) :=
  a.ran.zipIdx.flatMap (fun r => r.1.notes r.2) ++ a.visits.flatMap Visit.notes ++
    a.heard.map Heard.note

/-- The report, by the account alone: the failures of handlers come first, then those of
listeners that could not be asked, then those of listeners that were called. -/
def report (a : Account W) : StopReport where
  handlersRun := a.ran.length
  listenersStopped := a.heard.length
  failures :=
    a.ran.zipIdx.filterMap
        (fun r => StopStage.failure? (.handler r.2) (Outcome.ofEnd r.1.result)) ++
      a.visits.filterMap Visit.failure? ++ a.heard.filterMap Heard.failure?

structure Sound (client : Client W) (a : Account W) : Prop where
  ran : ∀ r ∈ a.ran.zipIdx, r.1.Sound r.2
  visits : ∀ visit ∈ a.visits, visit.Sound client

def handlers (a : Account W) : List (Strand → Code W) := a.ran.map Finish.handler

def listeners (a : Account W) : List ObjectId := a.visits.map Visit.listener

def requests (a : Account W) : List (ObjectId × FutureId) := a.visits.filterMap Visit.request?

def told (a : Account W) (handlers : List (Strand → Code W)) (listeners : List ObjectId) :
    List (Note W) :=
  .took (a.handlers ++ handlers) :: .read (a.listeners ++ listeners) :: a.notes

/-- A stop with an account that has still to see to some handlers, listeners and calls. -/
def stopping (a : Account W) (shutsDown : Bool) (handlers : List (Strand → Code W))
    (listeners : List ObjectId) (asked : List (ObjectId × FutureId)) : Stopping W where
  handlers := handlers
  listeners := listeners
  asked := asked
  report := a.report
  shutsDown := shutsDown

/-! ### One more entry -/

def run (a : Account W) (r : Finish W) : Account W := { a with ran := a.ran ++ [r] }

def visit (a : Account W) (v : Visit W) : Account W := { a with visits := a.visits ++ [v] }

def hear (a : Account W) (h : Heard) : Account W := { a with heard := a.heard ++ [h] }

structure Early (a : Account W) : Prop where
  visits : a.visits = []
  heard : a.heard = []

section Entries

variable {client : Client W} {a : Account W}

theorem told_run (early : a.Early) (r : Finish W) (rest : List (Strand → Code W))
    (listeners : List ObjectId) :
    (a.run r).told rest listeners =
      a.told (r.handler :: rest) listeners ++ r.notes a.ran.length := by
  simp [told, run, notes, handlers, Account.listeners, early.visits, early.heard,
    List.zipIdx_append]

theorem report_run (early : a.Early) (r : Finish W) :
    (a.run r).report = a.report.afterHandler (Outcome.ofEnd r.result) := by
  cases outcome : Outcome.ofEnd r.result <;>
    simp [report, run, StopReport.afterHandler, StopReport.fail, StopStage.failure?,
      List.zipIdx_append, early.visits, early.heard, outcome]

theorem told_visit (unheard : a.heard = []) (v : Visit W) (rest : List ObjectId) :
    (a.visit v).told [] rest = a.told [] (v.listener :: rest) ++ v.notes := by
  simp [told, visit, notes, handlers, listeners, unheard]

theorem report_visit (unheard : a.heard = []) {v : Visit W} (calm : v.failure? = none) :
    (a.visit v).report = a.report := by
  simp [report, visit, unheard, calm]

theorem report_panicked (unheard : a.heard = []) (l : ObjectId) (panic : Panic) :
    (a.visit (.panicked l panic)).report = a.report.fail (.listener l) (.ofPanic panic) := by
  simp [report, visit, StopReport.fail, Visit.failure?, unheard]

theorem told_hear (h : Heard) : (a.hear h).told [] [] = a.told [] [] ++ [h.note] := by
  simp [told, hear, notes, handlers, listeners]

theorem report_hear (h : Heard) :
    (a.hear h).report = a.report.afterListener h.listener h.outcome := by
  cases outcome : h.outcome <;>
    simp [report, hear, StopReport.afterListener, StopReport.fail, Heard.failure?,
      StopStage.failure?, outcome]

theorem requests_visit {v : Visit W} (unasked : v.request? = none) :
    (a.visit v).requests = a.requests := by
  simp [requests, visit, unasked]

theorem requests_asked (l : ObjectId) (type : ObjectType W) (f : FutureId) :
    (a.visit (.asked l type f)).requests = a.requests ++ [(l, f)] := by
  simp [requests, visit, Visit.request?]

theorem requests_hear (h : Heard) : (a.hear h).requests = a.requests := rfl

theorem length_notes (a : Account W) :
    a.notes.length ≤ 2 * a.ran.length + 3 * a.visits.length + a.heard.length := by
  have ran : (a.ran.zipIdx.flatMap fun r => r.1.notes r.2).length = 2 * a.ran.length := by
    rw [List.length_flatMap]
    simp [Finish.notes, Nat.mul_comm]
  have visits : (a.visits.flatMap Visit.notes).length ≤ 3 * a.visits.length := by
    induction a.visits with
    | nil => exact Nat.zero_le _
    | cons v rest ih =>
      have own : v.notes.length ≤ 3 := by cases v <;> simp [Visit.notes]
      rw [List.flatMap_cons, List.length_append, List.length_cons]
      omega
  simp only [notes, List.length_append, List.length_map]
  omega

theorem Sound.run (sound : a.Sound client) {r : Finish W} (own : r.Sound a.ran.length) :
    (a.run r).Sound client := by
  refine ⟨fun x mem => ?_, sound.visits⟩
  rw [Account.run, List.zipIdx_append, List.mem_append] at mem
  rcases mem with earlier | new
  · exact sound.ran x earlier
  · obtain rfl : x = (r, a.ran.length) := by simpa using new
    exact own

theorem Sound.visit (sound : a.Sound client) {v : Visit W} (own : v.Sound client) :
    (a.visit v).Sound client :=
  ⟨sound.ran, List.forall_mem_append.2 ⟨sound.visits, List.forall_mem_singleton.2 own⟩⟩

end Entries
end Account

/-! ## Where a stop stands -/

section Standing

variable (client : Client W) (shutsDown : Bool)

/-- A stop runs code after some notes: that of a handler, or that by which a listener
answers when it is asked for its type. -/
inductive Errand : List (Note W) → Role W → Code W → Prop
  | handler (a : Account W) (handler : Strand → Code W) (rest : List (Strand → Code W))
      (listeners : List ObjectId) : a.Sound client → a.Early →
      Errand (a.told (handler :: rest) listeners ++ [.began a.ran.length handler])
        (.handler (a.stopping shutsDown rest listeners []))
        (handler (handlerStrand a.ran.length))
  | query (a : Account W) (listener : ObjectId) (rest : List ObjectId) (n : Nat) :
      a.Sound client → a.heard = [] →
      Errand (a.told [] (listener :: rest) ++ [.consulted listener])
        (.query listener (.listener (a.stopping shutsDown [] rest a.requests)))
        (client.consult listener n)

/-- The frame of a stop after some notes. -/
inductive Standing : List (Note W) → Frame W → Prop
  | take : Standing [] (.takeHandlers shutsDown)
  | read (handlers : List (Strand → Code W)) :
      Standing [.took handlers] (.readListeners { handlers, shutsDown })
  | choose (a : Account W) (rest : List (Strand → Code W)) (listeners : List ObjectId) :
      a.Sound client → a.Early →
      Standing (a.told rest listeners) (.runHandlers (a.stopping shutsDown rest listeners []))
  | run {notes : List (Note W)} {role : Role W} {first code : Code W} :
      Errand client shutsDown notes role first → first.Leads code →
      Standing notes (.running role code)
  | wait {notes : List (Note W)} {role : Role W} {first : Code W} {next : Reply → Code W} :
      Errand client shutsDown notes role first → (∀ reply, first.Leads (next reply)) →
      Standing notes (.waiting role next)
  | ask (a : Account W) (rest : List ObjectId) : a.Sound client → a.heard = [] →
      Standing (a.told [] rest) (.askListeners (a.stopping shutsDown [] rest a.requests))
  | query (a : Account W) (listener : ObjectId) (rest : List ObjectId) :
      a.Sound client → a.heard = [] →
      Standing (a.told [] (listener :: rest))
        (.query listener (.listener (a.stopping shutsDown [] rest a.requests)))
  | schedule (a : Account W) (listener : ObjectId) (rest : List ObjectId) (type : ObjectType W) :
      a.Sound client → a.heard = [] → (∃ world, type = client.typeOf listener world) →
      (type.method? stopMethod).isSome →
      Standing (a.told [] (listener :: rest) ++ [.consulted listener, .answered listener type])
        (.openStop listener (type.lane stopMethod) (.ofMethod type.name stopMethod)
          (a.stopping shutsDown [] rest a.requests))
  | await (a : Account W) (asked : List (ObjectId × FutureId)) :
      a.Sound client → a.requests = a.heard.map Heard.request ++ asked →
      Standing (a.told [] []) (.awaitListeners (a.stopping shutsDown [] [] asked))

end Standing

/-! ## The steps of a stop -/

namespace Standing

variable {client : Client W} {shutsDown : Bool} {notes : List (Note W)} {s : Shared W}

/-- The code that a stop runs has ended. -/
theorem ended {role : Role W} {first : Code W} (errand : Errand client shutsDown notes role first)
    {result : Except Panic Outcome} (ends : first.CanEnd result) :
    ∃ base, (role.ended client s result).frames = [base] ∧
      Standing client shutsDown (notes ++ (role.note client s result).toList) base := by
  cases errand with
  | handler a handler rest listeners sound early =>
    refine ⟨_, rfl, ?_⟩
    have stands : Standing client shutsDown _ _ := .choose (a.run ⟨handler, result⟩) rest
      listeners (sound.run ends) ⟨early.visits, early.heard⟩
    rw [Account.told_run early, Account.stopping, Account.report_run early] at stands
    rw [List.append_assoc]
    exact stands
  | query a listener rest n sound unheard =>
    cases result with
    | error panic =>
      refine ⟨_, rfl, ?_⟩
      have own : (Visit.panicked listener panic).Sound client := ⟨n, ends⟩
      have stands : Standing client shutsDown _ _ := .ask (a.visit (.panicked listener panic))
        rest (sound.visit own) unheard
      rw [Account.told_visit unheard, Account.stopping, Account.report_panicked unheard,
        Account.requests_visit rfl] at stands
      rw [List.append_assoc]
      exact stands
    | ok outcome =>
      cases found : (client.typeOf listener s.world).method? stopMethod with
      | none =>
        refine ⟨.askListeners _, by simp only [Role.ended, Site.answered, found]; rfl, ?_⟩
        have own : (Visit.skipped listener (client.typeOf listener s.world)).Sound client :=
          ⟨⟨_, rfl⟩, found⟩
        have stands : Standing client shutsDown _ _ := .ask (a.visit (.skipped listener _))
          rest (sound.visit own) unheard
        rw [Account.told_visit unheard, Account.stopping, Account.report_visit unheard rfl,
          Account.requests_visit rfl] at stands
        rw [List.append_assoc]
        exact stands
      | some method =>
        refine ⟨.openStop _ _ _ _, by simp only [Role.ended, Site.answered, found]; rfl, ?_⟩
        have stands : Standing client shutsDown _ _ := .schedule a listener rest
          (client.typeOf listener s.world) sound unheard ⟨_, rfl⟩ (by rw [found]; rfl)
        rw [List.append_assoc]
        exact stands

def GoesOn (client : Client W) (shutsDown : Bool) (notes : List (Note W)) (s : Shared W)
    (frame : Frame W) (p : Progress W) : Prop :=
  ∃ above base, p.frames = above ++ [base] ∧
    Standing client shutsDown (notes ++ (frame.note client s).toList) base ∧
    ∀ placing, frame.note client s = some (.scheduled placing) → .claim placing ∈ above

theorem GoesOn.unnoted {frame base : Frame W} {p : Progress W} (none : frame.note client s = none)
    (frames : p.frames = [base]) (stands : Standing client shutsDown notes base) :
    GoesOn client shutsDown notes s frame p := by
  refine ⟨[], base, frames, ?_, fun placing note => ?_⟩
  · rwa [none, Option.toList_none, List.append_nil]
  · rw [none] at note
    cases note

variable {sight : Sight} {choice : Choice} {p : Progress W}

theorem run_step {role : Role W} {first code : Code W}
    (errand : Errand client shutsDown notes role first) (leads : first.Leads code)
    (taken : code.step client sight choice.late s role = some p) :
    GoesOn client shutsDown notes s (.running role code) p := by
  cases ended : code.result? with
  | none =>
    have note : (Frame.running role code).note client s = none := by simp [Frame.note, ended]
    rcases Code.step_goes taken ended with ⟨code', frames, goes⟩ | ⟨above, next, frames, goes⟩
    · exact .unnoted note frames (.run errand (leads.next goes))
    · refine ⟨above, _, frames, ?_, fun placing scheduled => ?_⟩
      · rw [note, Option.toList_none, List.append_nil]
        exact .wait errand fun reply => leads.next (goes reply)
      · rw [note] at scheduled
        cases scheduled
  | some result =>
    obtain rfl := Code.eq_ending_of_result? ended
    have same : p = role.ended client s result := by
      cases result <;> exact (Option.some.inj taken).symm
    obtain ⟨base, frames, stands⟩ := Standing.ended (s := s) errand leads
    have note : (Frame.running role (Code.ending result)).note client s =
        role.note client s result := by simp [Frame.note, ended]
    subst same
    refine ⟨[], base, frames, by rwa [note], fun placing scheduled => ?_⟩
    rw [note] at scheduled
    cases errand with
    | handler => cases scheduled
    | query => cases result <;> cases scheduled

theorem schedule_step (a : Account W) (listener : ObjectId) (rest : List ObjectId)
    {type : ObjectType W} (sound : a.Sound client) (unheard : a.heard = [])
    (found : ∃ world, type = client.typeOf listener world)
    (known : (type.method? stopMethod).isSome) :
    GoesOn client shutsDown
      (a.told [] (listener :: rest) ++ [.consulted listener, .answered listener type]) s
      (.openStop listener (type.lane stopMethod) (.ofMethod type.name stopMethod)
        (a.stopping shutsDown [] rest a.requests))
      (openStopStep s listener (type.lane stopMethod) (.ofMethod type.name stopMethod)
        (a.stopping shutsDown [] rest a.requests)) := by
  refine ⟨[.claim (stopPlacing listener (type.lane stopMethod) s.futures.nextId)], _, rfl,
    ?_, fun placing note => by cases note; exact List.mem_singleton_self _⟩
  have own : (Visit.asked listener type s.futures.nextId).Sound client := ⟨found, known⟩
  have stands : Standing client shutsDown _ _ := .ask
    (a.visit (.asked listener type s.futures.nextId)) rest (sound.visit own) unheard
  rw [Account.told_visit unheard, Account.stopping, Account.report_visit unheard rfl,
    Account.requests_asked] at stands
  rw [List.append_assoc]
  exact stands

theorem hear_step (a : Account W) (listener : ObjectId) (future : FutureId)
    (rest : List (ObjectId × FutureId)) (sound : a.Sound client)
    (requests : a.requests = a.heard.map Heard.request ++ (listener, future) :: rest)
    (taken : awaitListenersStep s (a.stopping shutsDown [] [] ((listener, future) :: rest)) =
      some p) :
    GoesOn client shutsDown (a.told [] []) s
      (.awaitListeners (a.stopping shutsDown [] [] ((listener, future) :: rest))) p := by
  simp only [awaitListenersStep, Account.stopping] at taken
  split at taken
  · rename_i outcome _ _ _ found
    cases taken
    have note : (Frame.awaitListeners (a.stopping shutsDown [] [] ((listener, future) :: rest))
        ).note client s = some (.heard listener future outcome) := by
      simp only [Frame.note, Account.stopping, found]
    refine ⟨[], _, rfl, ?_, fun placing scheduled => by rw [note] at scheduled; cases scheduled⟩
    have stands : Standing client shutsDown _ _ := .await
      (a.hear ⟨listener, future, outcome⟩) rest ⟨sound.ran, sound.visits⟩
      (by rw [Account.requests_hear, requests]; simp [Account.hear, Heard.request])
    rw [Account.told_hear, Account.stopping, Account.report_hear] at stands
    rw [note]
    exact stands
  · cases taken

/-- A stop goes on with every step.  The last one reports. -/
theorem step {frame : Frame W} (standing : Standing client shutsDown notes frame)
    (taken : frame.step client sight choice s = some p) :
    GoesOn client shutsDown notes s frame p ∨
    ∃ report, frame.note client s = some (.reported report) ∧
      p.frames = (if shutsDown then [.shutdown] else []) ++ [.deliver (.report report)] := by
  cases standing with
  | take =>
    cases taken
    exact .inl ⟨[], _, rfl, .read _, fun _ note => by cases note⟩
  | read handlers =>
    cases taken
    refine .inl ⟨[], _, rfl, ?_, fun _ note => by cases note⟩
    exact .choose {} handlers s.registry.listeners ⟨by simp, by simp⟩ ⟨rfl, rfl⟩
  | choose a rest listeners sound early =>
    cases taken
    cases rest with
    | nil =>
      refine .inl (.unnoted rfl rfl ?_)
      have stands : Standing client shutsDown _ _ := .ask a listeners sound early.heard
      rw [Account.requests, early.visits] at stands
      exact stands
    | cons handler rest =>
      refine .inl ⟨[], _, rfl, ?_, fun _ note => by cases note⟩
      exact .run (.handler a handler rest listeners sound early) .refl
  | run errand leads => exact .inl (run_step errand leads taken)
  | wait errand leads => cases taken
  | ask a rest sound unheard =>
    cases taken
    cases rest with
    | nil => exact .inl (.unnoted rfl rfl (.await a a.requests sound (by rw [unheard]; rfl)))
    | cons listener rest => exact .inl (.unnoted rfl rfl (.query a listener rest sound unheard))
  | query a listener rest sound unheard =>
    cases taken
    refine .inl ⟨[], _, rfl, ?_, fun _ note => by cases note⟩
    exact .run (.query a listener rest _ sound unheard) .refl
  | schedule a listener rest type sound unheard found known =>
    cases taken
    exact .inl (schedule_step a listener rest sound unheard found known)
  | await a asked sound requests =>
    cases asked with
    | nil =>
      cases taken
      exact .inr ⟨a.report, rfl, rfl⟩
    | cons request rest =>
      exact .inl (hear_step a request.1 request.2 rest sound requests taken)

/-- The code that a stop runs is answered. -/
theorem answered {role : Role W} {next : Reply → Code W}
    (standing : Standing client shutsDown notes (.waiting role next)) (reply : Reply) :
    Standing client shutsDown notes (.running role (next reply)) := by
  cases standing with
  | wait errand leads => exact .run errand (leads reply)

theorem not_deliver {frame : Frame W} (standing : Standing client shutsDown notes frame)
    (reply : Reply) : frame ≠ .deliver reply := by
  rintro rfl
  cases standing

/-- A stop that is about to report has nothing left to do. -/
theorem of_reported {frame : Frame W} (standing : Standing client shutsDown notes frame)
    {report : StopReport} (note : frame.note client s = some (.reported report)) :
    ∃ a : Account W, frame = .awaitListeners (a.stopping shutsDown [] [] []) ∧
      report = a.report ∧ notes = .took a.handlers :: .read a.listeners :: a.notes ∧
      a.Sound client ∧ a.requests = a.heard.map Heard.request := by
  cases standing with
  | choose a rest listeners =>
    obtain ⟨_, _, eq⟩ := Option.map_eq_some_iff.1 note
    cases eq
  | run errand leads => cases Frame.answers_of_running note
  | await a asked sound requests =>
    cases asked with
    | nil =>
      cases note
      refine ⟨a, rfl, rfl, ?_, sound, by rw [requests, List.append_nil]⟩
      rw [Account.told, List.append_nil, List.append_nil]
    | cons request rest =>
      simp only [Frame.note, Account.stopping] at note
      split at note <;> cases note
  | _ => cases note

/-- The stop can go on unless it runs code or waits for a call that is not complete. -/
theorem can_step {frame : Frame W} (standing : Standing client shutsDown notes frame)
    (own : frame.isClients = false)
    (complete : ∀ a : Account W, notes = a.told [] [] → ∀ request ∈ a.requests,
      ∃ u outcome, s.futures.get? request.2 = some u ∧ u.notified = true ∧
        u.state = some outcome)
    (sight : Sight) (choice : Choice) : (frame.step client sight choice s).isSome := by
  cases standing with
  | run => cases own
  | wait => cases own
  | await a asked sound requests =>
    cases asked with
    | nil => rfl
    | cons request rest =>
      obtain ⟨u, outcome, found, notified, state⟩ :=
        complete a rfl request (by rw [requests]; simp)
      obtain ⟨strand, returnType, _, callback, _, claimed, kept⟩ := u
      cases notified
      cases state
      simp [Frame.step, awaitListenersStep, Account.stopping, found]
  | _ => rfl

/-- After it took the handlers and read the listeners, a stop makes boundedly many notes. -/
theorem length_le {frame : Frame W} (standing : Standing client shutsDown notes frame)
    {handlers : List (Strand → Code W)} {listeners : List ObjectId} {later : List (Note W)}
    (eq : notes = .took handlers :: .read listeners :: later) :
    later.length ≤ 2 * handlers.length + 4 * listeners.length := by
  cases standing with
  | take => cases eq
  | read => cases eq
  | choose a rest listeners' sound early =>
    cases eq
    have le := a.length_notes
    simp [Account.handlers, Account.listeners, early.heard] at le ⊢
    omega
  | run errand | wait errand =>
    cases errand with
    | handler a handler rest listeners' sound early =>
      cases eq
      have le := a.length_notes
      simp [Account.handlers, Account.listeners, early.heard] at le ⊢
      omega
    | query a listener rest n sound unheard =>
      cases eq
      have le := a.length_notes
      simp [Account.handlers, Account.listeners, unheard] at le ⊢
      omega
  | ask a rest sound unheard | query a listener rest sound unheard =>
    cases eq
    have le := a.length_notes
    simp [Account.handlers, Account.listeners, unheard] at le ⊢
    omega
  | schedule a listener rest type sound unheard =>
    cases eq
    have le := a.length_notes
    simp [Account.handlers, Account.listeners, unheard] at le ⊢
    omega
  | await a asked sound requests =>
    cases eq
    have le := a.length_notes
    have heard := congrArg List.length requests
    have asked := List.length_filterMap_le Visit.request? a.visits
    simp [Account.handlers, Account.listeners, Account.requests] at le heard ⊢
    omega

end Standing
end Strands
