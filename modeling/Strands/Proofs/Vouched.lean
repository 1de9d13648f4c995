/-
What frames, jobs and deeds can be traced back to.

Code runs because something asked for it.  A unit that runs was started with its first
code, and what is left of it is what that code leads to; it was started because it was
bound to its future, and bound because a client placed it, because it computes an omitted
argument, or because the arguments of a call were complete.  `Log.vouched` says so of all
frames, jobs and deeds of a run.  `Code.Leads` leaves open what code is told and what it
finds, so it holds of more than can happen and of nothing that the code does not say.
-/
import Mathlib.Logic.Relation
import Strands.Proofs.Plain

namespace Strands

variable {W : Type}

/-! ## Code -/

/-- Code goes on after an action, with whatever it finds or is told. -/
inductive Code.Goes : Code W → Code W → Prop
  | act (update : W → W) (next : W → Code W) (world : W) : Goes (.act update next) (next world)
  | await (ready : Gauges → W → Bool) (next : Code W) : Goes (.await ready next) next
  | awaitAtMost (milliseconds : Nat) (ready : W → Bool) (next : Bool → Code W) (came : Bool) :
      Goes (.awaitAtMost milliseconds ready next) (next came)
  | ask (request : Request) (next : Reply → Code W) (reply : Reply) :
      Goes (.ask request next) (next reply)
  | create (spec : FutureSpec) (callback : Outcome → Code W) (next : Reply → Code W)
      (reply : Reply) : Goes (.create spec callback next) (next reply)
  | schedule (place : Placement) (work : Strand → Code W) (future : FutureId)
      (next : Reply → Code W) (reply : Reply) :
      Goes (.schedule place work future next) (next reply)
  | invoke (mode : Mode) (invocation : Invocation) (callback : Outcome → Code W)
      (next : Reply → Code W) (reply : Reply) :
      Goes (.invoke mode invocation callback next) (next reply)
  | resolve (receiver : ObjectId) (method : String) (args : List Value) (parent : Option Strand)
      (continuation : Except DomainError (List Value) → Code W) (next : Reply → Code W)
      (reply : Reply) : Goes (.resolve receiver method args parent continuation next) (next reply)
  | addHandler (handler : Strand → Code W) (next : Code W) : Goes (.addHandler handler next) next
  | spawn (thread next : Code W) : Goes (.spawn thread next) next

namespace Code

/-- Code may come to go on with other code. -/
def Leads : Code W → Code W → Prop := Relation.ReflTransGen Goes

/-- Code that ends at once. -/
def ending : Except Panic Outcome → Code W
  | .ok outcome => .finish outcome
  | .error payload => .panic payload

/-- Code may come to an end. -/
def CanEnd (code : Code W) (result : Except Panic Outcome) : Prop := code.Leads (.ending result)

theorem Leads.next {code code' code'' : Code W} (leads : code.Leads code')
    (goes : code'.Goes code'') : code.Leads code'' := Relation.ReflTransGen.tail leads goes

def result? : Code W → Option (Except Panic Outcome)
  | finish outcome => some (.ok outcome)
  | panic payload => some (.error payload)
  | _ => none

theorem eq_ending_of_result? {code : Code W} {result : Except Panic Outcome}
    (h : code.result? = some result) : code = ending result := by
  cases code <;> cases h <;> rfl

/-- Code that has not ended goes on, or waits for the answer to a request. -/
theorem step_goes {client : Client W} {sight : Sight} {late : Bool} {s : Shared W} {role : Role W}
    {code : Code W} {p : Progress W} (taken : code.step client sight late s role = some p)
    (unended : code.result? = none) :
    (∃ code', p.frames = [.running role code'] ∧ code.Goes code') ∨
      ∃ above next, p.frames = above ++ [.waiting role next] ∧ ∀ reply, code.Goes (next reply) := by
  cases code with
  | finish outcome | panic payload => cases unended
  | act update next =>
    cases taken
    exact .inl ⟨_, rfl, .act update next _⟩
  | await ready next =>
    simp only [step] at taken
    split at taken <;> cases taken
    exact .inl ⟨_, rfl, .await ready next⟩
  | awaitAtMost milliseconds ready next =>
    simp only [step] at taken
    split at taken
    · cases taken
      exact .inl ⟨_, rfl, .awaitAtMost _ _ _ true⟩
    · split at taken <;> cases taken
      exact .inl ⟨_, rfl, .awaitAtMost _ _ _ false⟩
  | ask request next =>
    cases taken
    exact .inr ⟨_, next, rfl, .ask request next⟩
  | create spec callback next =>
    cases taken
    exact .inr ⟨[_], next, rfl, .create spec callback next⟩
  | schedule place work future next =>
    cases taken
    exact .inr ⟨[_, _], next, rfl, .schedule place work future next⟩
  | invoke mode invocation callback next =>
    cases taken
    exact .inr ⟨_, next, rfl, .invoke mode invocation callback next⟩
  | resolve receiver method args parent continuation next =>
    cases taken
    exact .inr ⟨[_, _], next, rfl, .resolve receiver method args parent continuation next⟩
  | addHandler handler next =>
    cases taken
    exact .inl ⟨_, rfl, .addHandler handler next⟩
  | spawn thread next =>
    cases taken
    exact .inl ⟨_, rfl, .spawn thread next⟩

end Code

/-! ## Frames, jobs and deeds -/

/-- The invocation names its receiver and its method. -/
def Call.Valid (call : Call W) : Prop :=
  call.invocation.validate = .ok (call.receiver, call.method)

/-- An object can panic when it is asked for its type. -/
def Client.CanFault (client : Client W) (object : ObjectId) (panic : Panic) : Prop :=
  ∃ n, (client.consult object n).CanEnd (.error panic)

/-- The type of the receiver, in some world, says which arguments a call leaves out. -/
def Lookup.Finds (client : Client W) (lookup : Lookup W)
    (found : Except DomainError (List (Omitted W))) : Prop :=
  ∃ world, (client.typeOf lookup.receiver world).omitted lookup.method lookup.args.length = found

section Vouching

variable (client : Client W) (ds : List (Deed W))

/-- The call is one that got its future. -/
def OpenCall.Vouched (call : OpenCall) : Prop :=
  ∃ (made : Call W) (metadata : Metadata) (future : FutureId),
    .opened future made metadata none ∈ ds ∧ call = made.open metadata future

/-- The job is a unit that was bound to its future. -/
def Job.Vouched (job : Job W) : Prop := ∃ p, .bound p ∈ ds ∧ p.job = job

def Job.Sent (place : Placement) (asker : Asker) (job : Job W) : Prop :=
  .bound { place, task := job.task, future := job.future, asker } ∈ ds

def Placing.Vouched (p : Placing W) : Prop := ∃ δ ∈ ds, δ.placing? = some p

/-- What is asked on behalf of a call that got its future is what the call needs. -/
def Lookup.Vouched (lookup : Lookup W) : Prop :=
  ∀ f, lookup.next.call? = some f →
    ∃ call lane, OpenCall.Vouched ds call ∧ lookup = call.lookup lane

/-- The object is asked on behalf of a call to itself. -/
def Site.Vouched (object : ObjectId) : Site W → Prop
  | metadata call => call.receiver = object ∧ call.Valid
  | lane call => call.receiver = object ∧ call.Vouched ds
  | omitted lookup | expressions lookup _ => lookup.receiver = object ∧ lookup.Vouched ds
  | _ => True

def Role.Vouched (code : Code W) : Role W → Prop
  | task job => ∃ first, .started job first ∈ ds ∧ first.Leads code
  | query object site => site.Vouched ds object ∧ ∃ n, (client.consult object n).Leads code
  | _ => True

def Frame.Vouched : Frame W → Prop
  | running role code => role.Vouched client ds code
  | waiting role next => ∀ reply, role.Vouched client ds (next reply)
  | query object site => site.Vouched ds object
  | openCall call _ fault =>
    call.Valid ∧ ∀ panic, fault = some panic → client.CanFault call.receiver panic
  | track call _ => call.Vouched ds
  | claim p => p.Vouched ds
  | enter p => .bound p ∈ ds
  | push job asker => job.Sent ds .free asker
  | checkOpen receiver job asker | locate receiver job asker | append receiver _ job asker =>
    job.Sent ds (.group receiver) asker
  | _ => True

/-- What a deed tells of is so, and was brought about by deeds. -/
def Deed.Vouched : Deed W → Prop
  | opened _ call _ fault =>
    call.Valid ∧ ∀ panic, fault = some panic → client.CanFault call.receiver panic
  | faulted call panic => call.Vouched ds ∧ client.CanFault call.receiver panic
  | sought lookup => lookup.Vouched ds
  | planned lookup pending => lookup.Finds client (.ok pending) ∧ pending ≠ []
  | handed (.asking lookup) (.error e) => lookup.Finds client (.error e)
  | handed (.asking lookup) (.ok args) => lookup.Finds client (.ok []) ∧ args = lookup.args
  | handed (.naming _ _) _ => False
  | handed (.filling r) result => r.pending = [] ∧ result = .ok r.args
  | handed (.awaiting _ _) result => ∃ e, result = .error e
  | abandoned (.asking lookup) panic | abandoned (.naming lookup _) panic =>
    lookup.Vouched ds ∧ client.CanFault lookup.receiver panic
  | abandoned _ _ => False
  | placed p => p.asker = .client p.future ∧ ∃ work, p.task = .work work
  | asked p => ∃ listener, p.task = .stop listener
  | bound p => p.Vouched ds
  | located receiver job => ∃ asker, job.Sent ds (.group receiver) asker
  | started job _ => job.Vouched ds
  | ended job result => ∃ first, .started job first ∈ ds ∧ first.CanEnd result
  | _ => True

end Vouching

section Lasting

variable {client : Client W} {ds : List (Deed W)}

theorem OpenCall.Vouched.mono {call : OpenCall} (h : call.Vouched ds) (later : List (Deed W)) :
    call.Vouched (ds ++ later) := by
  obtain ⟨made, metadata, future, mem, eq⟩ := h
  exact ⟨made, metadata, future, List.mem_append_left _ mem, eq⟩

theorem Job.Vouched.mono {job : Job W} (h : job.Vouched ds) (later : List (Deed W)) :
    job.Vouched (ds ++ later) := by
  obtain ⟨p, mem, eq⟩ := h
  exact ⟨p, List.mem_append_left _ mem, eq⟩

theorem Placing.Vouched.mono {p : Placing W} (h : p.Vouched ds) (later : List (Deed W)) :
    p.Vouched (ds ++ later) := by
  obtain ⟨δ, mem, eq⟩ := h
  exact ⟨δ, List.mem_append_left _ mem, eq⟩

theorem Lookup.Vouched.mono {lookup : Lookup W} (h : lookup.Vouched ds) (later : List (Deed W)) :
    lookup.Vouched (ds ++ later) := by
  intro f next
  obtain ⟨call, lane, vouched, eq⟩ := h f next
  exact ⟨call, lane, vouched.mono later, eq⟩

theorem Site.Vouched.mono {object : ObjectId} {site : Site W} (h : site.Vouched ds object)
    (later : List (Deed W)) : site.Vouched (ds ++ later) object := by
  cases site with
  | lane call => exact ⟨h.1, h.2.mono later⟩
  | omitted lookup | expressions lookup pending => exact ⟨h.1, h.2.mono later⟩
  | _ => exact h

theorem Role.Vouched.next {code code' : Code W} {role : Role W}
    (h : role.Vouched client ds code) (goes : code.Goes code') : role.Vouched client ds code' := by
  cases role with
  | task job =>
    obtain ⟨first, mem, leads⟩ := h
    exact ⟨first, mem, leads.next goes⟩
  | query object site =>
    obtain ⟨vouched, n, leads⟩ := h
    exact ⟨vouched, n, leads.next goes⟩
  | _ => trivial

theorem Role.Vouched.mono {code : Code W} {role : Role W} (h : role.Vouched client ds code)
    (later : List (Deed W)) : role.Vouched client (ds ++ later) code := by
  cases role with
  | task job =>
    obtain ⟨first, mem, leads⟩ := h
    exact ⟨first, List.mem_append_left _ mem, leads⟩
  | query object site => exact ⟨h.1.mono later, h.2⟩
  | _ => trivial

theorem Frame.Vouched.mono {frame : Frame W} (h : frame.Vouched client ds)
    (later : List (Deed W)) : frame.Vouched client (ds ++ later) := by
  cases frame with
  | running role code => exact Role.Vouched.mono h later
  | waiting role next => exact fun reply => (h reply).mono later
  | query object site => exact Site.Vouched.mono h later
  | track call lane => exact OpenCall.Vouched.mono h later
  | claim p => exact Placing.Vouched.mono h later
  | enter p | push job asker | checkOpen receiver job asker | locate receiver job asker
  | append receiver group job asker => exact List.mem_append_left _ h
  | _ => exact h

theorem Deed.Vouched.mono {δ : Deed W} (h : δ.Vouched client ds) (later : List (Deed W)) :
    δ.Vouched client (ds ++ later) := by
  cases δ with
  | faulted call panic => exact ⟨h.1.mono later, h.2⟩
  | sought lookup => exact Lookup.Vouched.mono h later
  | bound p => exact Placing.Vouched.mono h later
  | located receiver job =>
    obtain ⟨asker, mem⟩ := h
    exact ⟨asker, List.mem_append_left _ mem⟩
  | started job code => exact Job.Vouched.mono h later
  | ended job result =>
    obtain ⟨first, mem, ends⟩ := h
    exact ⟨first, List.mem_append_left _ mem, ends⟩
  | handed quest result =>
    cases quest with
    | asking lookup => cases result <;> exact h
    | _ => exact h
  | abandoned quest panic =>
    cases quest with
    | asking lookup | naming lookup pending => exact ⟨h.1.mono later, h.2⟩
    | _ => exact h
  | _ => exact h

theorem Frame.vouched_of_isPlain {frame : Frame W} (plain : frame.isPlain = true) :
    frame.Vouched client ds := by
  cases frame with
  | running role code =>
    cases role with
    | task job | query object site => cases plain
    | _ => trivial
  | waiting role next =>
    cases role with
    | task job | query object site => cases plain
    | _ => exact fun _ => trivial
  | claim p | enter p | push job asker | checkOpen receiver job asker | locate receiver job asker
  | append receiver group job asker | query object site | openCall call metadata fault
  | track call lane => cases plain
  | _ => trivial

theorem Plain.vouched {frames : List (Frame W)} (plain : Plain frames) :
    ∀ frame ∈ frames, frame.Vouched client ds :=
  fun frame mem => Frame.vouched_of_isPlain (plain frame mem)

end Lasting

/-! ## One step -/

structure Traced (client : Client W) (ds : List (Deed W)) (δ : Deed W) (p : Progress W) :
    Prop where
  deed : δ.Vouched client ds
  frames : ∀ frame ∈ p.frames, frame.Vouched client (ds ++ [δ])
  jobs : ∀ job ∈ p.shared.jobs, job.Vouched (ds ++ [δ])

section Frames

variable {client : Client W} {ds : List (Deed W)}

theorem vouched_cons {frame : Frame W} {frames : List (Frame W)} :
    (∀ f ∈ frame :: frames, f.Vouched client ds) ↔
      frame.Vouched client ds ∧ ∀ f ∈ frames, f.Vouched client ds := List.forall_mem_cons

theorem vouched_append {a b : List (Frame W)} :
    (∀ f ∈ a ++ b, f.Vouched client ds) ↔
      (∀ f ∈ a, f.Vouched client ds) ∧ ∀ f ∈ b, f.Vouched client ds := List.forall_mem_append

theorem Next.resume_vouched (quest : Quest W) (direct : Bool)
    (result : Except DomainError (List Value)) (mem : .handed quest result ∈ ds) :
    ∀ frame ∈ quest.next.resume direct result, frame.Vouched client ds := by
  cases next : quest.next with
  | place call =>
    cases result with
    | ok args =>
      refine vouched_cons.2 ⟨⟨_, mem, ?_⟩, Plain.vouched (by simp [Frame.isPlain])⟩
      simp only [Deed.placing?, next]
    | error e => exact Plain.vouched (by simp [resume, Frame.isPlain])
  | client continuation =>
    cases direct <;> exact Plain.vouched (by simp [resume, Frame.isPlain, Role.isPlain])

theorem Next.abandon_plain (next : Next W) (panic : Panic) : Plain (next.abandon panic) := by
  cases next <;> simp [abandon, Frame.isPlain]

theorem Next.takenUp_plain (next : Next W) : Plain next.takenUp := by
  cases next <;> simp [takenUp, Frame.isPlain]

end Frames

section Steps

variable {client : Client W} {s : Shared W} {ds : List (Deed W)}
  (jobs : ∀ job ∈ s.jobs, job.Vouched ds)

include jobs

/-- A step that touches neither the queue nor a lane. -/
theorem Traced.of_same {δ : Deed W} {p : Progress W} (deed : δ.Vouched client ds)
    (frames : ∀ frame ∈ p.frames, frame.Vouched client (ds ++ [δ]))
    (queue : p.shared.queue = s.queue) (groups : p.shared.groups = s.groups) :
    Traced client ds δ p where
  deed := deed
  frames := frames
  jobs job mem := by
    refine (jobs job ?_).mono _
    simpa only [Shared.jobs, Shared.queuedJobs, Shared.laneJobs, queue, groups] using mem

theorem Site.answered_traced {object : ObjectId} {site : Site W} (vouched : site.Vouched ds object) :
    Traced client ds (site.answeredDeed (client.typeOf object s.world))
      (site.answered s object (client.typeOf object s.world)) := by
  cases site with
  | metadata call =>
    refine .of_same jobs trivial ?_ rfl rfl
    exact vouched_cons.2 ⟨⟨vouched.2, fun _ fault => by cases fault⟩, Plain.vouched plain_nil⟩
  | lane call =>
    refine .of_same jobs trivial ?_ rfl rfl
    exact vouched_cons.2 ⟨vouched.2.mono _, Plain.vouched plain_nil⟩
  | omitted lookup =>
    obtain ⟨rfl, own⟩ := vouched
    cases missing : (client.typeOf lookup.receiver s.world).omitted lookup.method
        lookup.args.length with
    | error e =>
      simp only [answered, answeredDeed, missing]
      refine .of_same jobs ⟨s.world, missing⟩ (vouched_append.2 ⟨?_, ?_⟩) rfl rfl
      · exact Next.resume_vouched (.asking lookup) true (.error e) (by simp)
      · exact Plain.vouched (by simp [Frame.isPlain])
    | ok pending =>
      cases pending with
      | nil =>
        simp only [answered, answeredDeed, missing]
        refine .of_same jobs ⟨⟨s.world, missing⟩, rfl⟩ ?_ rfl rfl
        exact Next.resume_vouched (.asking lookup) true (.ok lookup.args) (by simp)
      | cons first others =>
        simp only [answered, answeredDeed, missing]
        refine .of_same jobs ⟨⟨s.world, missing⟩, by simp⟩ ?_ rfl rfl
        exact vouched_cons.2 ⟨⟨rfl, own.mono _⟩, Plain.vouched plain_nil⟩
  | expressions lookup pending =>
    refine .of_same jobs trivial ?_ rfl rfl
    exact vouched_cons.2 ⟨trivial, lookup.next.takenUp_plain.vouched⟩
  | listener stopping =>
    refine .of_same jobs trivial (Plain.vouched ?_) rfl rfl
    simp only [answered]
    split <;> simp [Frame.isPlain]
  | client => exact .of_same jobs trivial (Plain.vouched (by simp [answered, Frame.isPlain])) rfl rfl

theorem Site.panicked_traced {object : ObjectId} {panic : Panic} {site : Site W}
    (vouched : site.Vouched ds object) (faults : client.CanFault object panic) :
    Traced client ds (site.panickedDeed panic)
      { shared := s, frames := site.panicked object panic } := by
  cases site with
  | metadata call =>
    obtain ⟨rfl, valid⟩ := vouched
    refine .of_same jobs trivial ?_ rfl rfl
    refine vouched_cons.2 ⟨⟨valid, fun panic' same => ?_⟩, Plain.vouched plain_nil⟩
    cases same
    exact faults
  | lane call =>
    obtain ⟨rfl, vouched⟩ := vouched
    exact .of_same jobs ⟨vouched, faults⟩
      (Plain.vouched (by simp [panicked, Frame.isPlain])) rfl rfl
  | omitted lookup | expressions lookup pending =>
    obtain ⟨rfl, own⟩ := vouched
    exact .of_same jobs ⟨own, faults⟩ (lookup.next.abandon_plain panic).vouched rfl rfl
  | listener stopping | client =>
    exact .of_same jobs trivial (Plain.vouched (by simp [panicked, Frame.isPlain])) rfl rfl

theorem Role.ended_traced {result : Except Panic Outcome} {role : Role W}
    (vouched : role.Vouched client ds (.ending result)) :
    Traced client ds (role.endedDeed client s result) (role.ended client s result) := by
  cases role with
  | task job =>
    exact .of_same jobs vouched (Plain.vouched (by simp [ended, Frame.isPlain])) rfl rfl
  | query object site =>
    obtain ⟨vouched, n, leads⟩ := vouched
    cases result with
    | ok outcome => exact Site.answered_traced jobs vouched
    | error panic => exact Site.panicked_traced jobs vouched ⟨n, leads⟩
  | continuation | call receiver args =>
    refine .of_same jobs trivial (Plain.vouched ?_) rfl rfl
    cases result <;> simp [ended, Frame.isPlain]
  | thread | callback outcome | continued | handler stopping =>
    exact .of_same jobs trivial
      (Plain.vouched (by simp [ended, Frame.isPlain])) rfl rfl

omit jobs in
theorem Invocation.dispatch_vouched (inv : Invocation) (mode : Mode)
    (callback : Outcome → Code W) : ∀ frame ∈ inv.dispatch mode callback, frame.Vouched client ds := by
  unfold dispatch
  split
  · rename_i receiver method found named
    have valid : inv.validate = .ok (receiver, method) := by rw [validate, found, named]
    refine vouched_append.2 ⟨?_, Plain.vouched (by simp [Frame.isPlain])⟩
    split
    · exact vouched_cons.2 ⟨⟨valid, fun _ fault => by cases fault⟩, Plain.vouched plain_nil⟩
    · exact vouched_cons.2 ⟨⟨rfl, valid⟩, Plain.vouched plain_nil⟩
  · exact Plain.vouched (by simp [reject, Frame.isPlain, Role.isPlain])
  · exact Plain.vouched (by simp [reject, Frame.isPlain, Role.isPlain])

theorem Request.serve_traced (sight : Sight) (request : Request) :
    Traced client ds .other (request.serve client sight s) := by
  cases request with
  | view future =>
    refine .of_same jobs trivial (Plain.vouched ?_) rfl rfl
    simp only [serve]
    split <;> simp [Frame.isPlain]
  | wait future | waitAtMost future milliseconds =>
    refine .of_same jobs trivial (Plain.vouched ?_) rfl rfl
    simp only [serve]
    split <;> simp [Frame.isPlain]
  | takeHandle =>
    simp only [serve]
    split <;> exact .of_same jobs trivial (Plain.vouched (by simp [Frame.isPlain])) rfl rfl
  | query object =>
    exact .of_same jobs trivial (vouched_cons.2 ⟨trivial, Plain.vouched plain_nil⟩) rfl rfl
  | _ =>
    exact .of_same jobs trivial
      (Plain.vouched (by simp [serve, Frame.isPlain, Role.isPlain])) rfl rfl

theorem Code.step_traced {sight : Sight} {late : Bool} {role : Role W} {code : Code W}
    {p : Progress W} (vouched : role.Vouched client ds code)
    (taken : code.step client sight late s role = some p) :
    Traced client ds (code.deed client s role) p := by
  have goesOn {code' : Code W} (goes : code.Goes code') (δ : Deed W) :
      ∀ frame ∈ [Frame.running role code'], frame.Vouched client (ds ++ [δ]) :=
    vouched_cons.2 ⟨(vouched.next goes).mono [δ], Plain.vouched plain_nil⟩
  have waits {next : Reply → Code W} (goes : ∀ reply, code.Goes (next reply)) (δ : Deed W) :
      ∀ frame ∈ [Frame.waiting role next], frame.Vouched client (ds ++ [δ]) :=
    vouched_cons.2 ⟨fun reply => (vouched.next (goes reply)).mono [δ], Plain.vouched plain_nil⟩
  cases code with
  | finish outcome =>
    cases taken
    exact Role.ended_traced jobs (show role.Vouched client ds (.ending (.ok outcome)) from vouched)
  | panic payload =>
    cases taken
    exact Role.ended_traced jobs (show role.Vouched client ds (.ending (.error payload)) from vouched)
  | act update next =>
    cases taken
    exact .of_same jobs trivial (goesOn (.act update next s.world) _) rfl rfl
  | await ready next =>
    simp only [step] at taken
    split at taken <;> cases taken
    exact .of_same jobs trivial (goesOn (.await ready next) _) rfl rfl
  | awaitAtMost milliseconds ready next =>
    simp only [step] at taken
    split at taken
    · cases taken
      exact .of_same jobs trivial (goesOn (.awaitAtMost milliseconds ready next true) _) rfl rfl
    · split at taken <;> cases taken
      exact .of_same jobs trivial (goesOn (.awaitAtMost milliseconds ready next false) _) rfl rfl
  | ask request next =>
    cases taken
    obtain ⟨_, frames, jobs'⟩ := request.serve_traced jobs sight
    exact ⟨trivial, vouched_append.2 ⟨frames, waits (.ask request next) _⟩, jobs'⟩
  | create spec callback next =>
    cases taken
    refine .of_same jobs trivial (vouched_cons.2 ⟨trivial, ?_⟩) rfl rfl
    exact waits (.create spec callback next) _
  | schedule place work future next =>
    cases taken
    cases had : s.hasHandle future with
    | true =>
      simp only [deed, had, if_true]
      refine .of_same jobs ⟨rfl, work, rfl⟩ (vouched_cons.2 ⟨?_, vouched_cons.2 ⟨trivial, ?_⟩⟩)
        rfl rfl
      · exact ⟨_, List.mem_append_right _ (List.mem_singleton.2 rfl), rfl⟩
      · exact waits (.schedule place work future next) _
    | false =>
      simp only [deed, had]
      refine .of_same jobs trivial (vouched_cons.2 ⟨trivial, vouched_cons.2 ⟨trivial, ?_⟩⟩) rfl rfl
      exact waits (.schedule place work future next) _
  | invoke mode invocation callback next =>
    cases taken
    refine .of_same jobs trivial (vouched_append.2 ⟨?_, ?_⟩) rfl rfl
    · exact invocation.dispatch_vouched mode callback
    · exact waits (.invoke mode invocation callback next) _
  | resolve receiver method args parent continuation next =>
    cases taken
    have own : Lookup.Vouched (W := W) ds
        { receiver, method, args, parent, next := .client continuation } :=
      fun f call => by cases call
    refine .of_same jobs own
      (vouched_cons.2 ⟨⟨rfl, own.mono _⟩, vouched_cons.2 ⟨trivial, ?_⟩⟩) rfl rfl
    exact waits (.resolve receiver method args parent continuation next) _
  | addHandler handler next =>
    cases taken
    exact .of_same jobs trivial (goesOn (.addHandler handler next) _) rfl rfl
  | spawn thread next =>
    cases taken
    exact .of_same jobs trivial (goesOn (.spawn thread next) _) rfl rfl

theorem claimStep_traced {p : Placing W} (vouched : p.Vouched ds) :
    Traced client ds (Frame.deed client s (.claim p)) (claimStep s p) := by
  simp only [claimStep, Frame.deed]
  cases found : s.futures.get? p.future with
  | none =>
    exact .of_same jobs trivial (Plain.vouched (Asker.plain_answer _ _)) rfl rfl
  | some u =>
    obtain ⟨strand, returnType, state, callback, notified, claimed, kept⟩ := u
    cases claimed with
    | true => exact .of_same jobs trivial (Plain.vouched (Asker.plain_answer _ _)) rfl rfl
    | false =>
      refine .of_same jobs vouched (vouched_cons.2 ⟨?_, Plain.vouched plain_nil⟩) rfl rfl
      exact List.mem_append_right _ (List.mem_singleton.2 rfl)

theorem enterStep_traced {p : Placing W} (vouched : .bound p ∈ ds) :
    Traced client ds .other (enterStep s p) := by
  obtain ⟨place, task, future, asker⟩ := p
  refine .of_same jobs trivial ?_ rfl rfl
  cases place <;>
    exact vouched_cons.2 ⟨List.mem_append_left _ vouched, Plain.vouched plain_nil⟩

theorem pushStep_traced {job : Job W} {asker : Asker} (sent : job.Sent ds .free asker) :
    Traced client ds .other (pushStep s job asker) := by
  simp only [pushStep]
  cases shut : s.queue.closed with
  | true =>
    simp only [RunQueue.push, shut, if_true]
    exact .of_same jobs trivial (Plain.vouched (by simp)) rfl rfl
  | false =>
    simp only [RunQueue.push, shut]
    refine ⟨trivial, Plain.vouched (by simp [Frame.isPlain]), fun other mem => ?_⟩
    rcases List.mem_append.1 mem with queued | onLane
    · obtain ⟨item, inQueue, isJob⟩ := List.mem_filterMap.1 queued
      rcases List.mem_append.1 (show item ∈ s.queue.items ++ [.job job] from inQueue) with
        earlier | new
      · refine (jobs other (List.mem_append_left _ ?_)).mono _
        exact List.mem_filterMap.2 ⟨item, earlier, isJob⟩
      · cases List.mem_singleton.1 new
        cases isJob
        exact ⟨_, List.mem_append_left _ sent, rfl⟩
    · exact (jobs other (List.mem_append_right _ onLane)).mono _

theorem appendStep_traced {receiver : ObjectId} {group : GroupId} {job : Job W} {asker : Asker}
    (sent : job.Sent ds (.group receiver) asker) :
    Traced client ds .other (appendStep s group job asker) := by
  simp only [appendStep]
  cases found : s.groups[group]? with
  | none => exact .of_same jobs trivial (Plain.vouched (by simp)) rfl rfl
  | some g =>
    refine ⟨trivial, Plain.vouched ?_, fun other mem => ?_⟩
    · dsimp only
      split <;> simp [Frame.isPlain]
    · rcases List.mem_append.1 mem with queued | onLane
      · exact (jobs other (List.mem_append_left _ queued)).mono _
      · rcases Shared.mem_laneJobs_modify onLane with earlier | ⟨g', found', waits⟩
        · exact (jobs other (List.mem_append_right _ earlier)).mono _
        · rcases List.mem_append.1 waits with earlier | new
          · refine (jobs other (List.mem_append_right _ (List.mem_flatMap.2 ⟨g', ?_, earlier⟩))).mono _
            exact List.mem_of_getElem? found'
          · obtain rfl : other = job := List.mem_singleton.1 new
            exact ⟨_, List.mem_append_left _ sent, rfl⟩

theorem Job.start_traced {job : Job W} {s' : Shared W} {others : List (Frame W)}
    (mem : job ∈ s.jobs) (plain : Plain others) (fewer : s'.jobs ⊆ s.jobs) :
    Traced client ds (job.startDeed client s)
      { shared := s', frames := job.run client s.futures ++ others } := by
  refine ⟨jobs job mem, ?_, fun other mem => (jobs other (fewer mem)).mono _⟩
  refine vouched_append.2 ⟨vouched_cons.2 ⟨⟨_, ?_, .refl⟩, Plain.vouched plain_nil⟩, plain.vouched⟩
  exact List.mem_append_right _ (List.mem_singleton.2 rfl)

theorem pollStep_traced : Traced client ds (Frame.deed client s .poll) (pollStep client s) := by
  rcases items : s.queue.items with _ | ⟨item, others⟩
  · simp only [pollStep, RunQueue.pop, Frame.deed, items]
    exact .of_same jobs trivial (Plain.vouched (by simp [Frame.isPlain])) rfl rfl
  · have fewer : ({ s with queue := { s.queue with items := others } } : Shared W).jobs ⊆ s.jobs := by
      intro job mem
      rcases List.mem_append.1 mem with queued | onLane
      · refine List.mem_append_left _ ?_
        obtain ⟨item', inQueue, isJob⟩ := List.mem_filterMap.1 queued
        exact List.mem_filterMap.2 ⟨item', by rw [items]; exact List.mem_cons_of_mem _ inQueue, isJob⟩
      · exact List.mem_append_right _ onLane
    cases item with
    | job job =>
      simp only [pollStep, RunQueue.pop, Frame.deed, items]
      refine Job.start_traced jobs ?_ (by simp [Frame.isPlain]) fewer
      refine List.mem_append_left _ (List.mem_filterMap.2 ⟨.job job, ?_, rfl⟩)
      rw [items]
      exact List.mem_cons_self
    | group group =>
      simp only [pollStep, RunQueue.pop, Frame.deed, items]
      exact ⟨trivial, Plain.vouched (by simp [Frame.isPlain]),
        fun job mem => (jobs job (fewer mem)).mono _⟩

theorem turnStep_traced (group : GroupId) :
    Traced client ds (Frame.deed client s (.turn group)) (turnStep client s group) := by
  cases found : s.groups[group]? with
  | none =>
    simp only [turnStep, Frame.deed, found]
    exact .of_same jobs trivial (Plain.vouched plain_nil) rfl rfl
  | some g =>
    have fewer : (s.modifyGroup group fun g => g.next.2).jobs ⊆ s.jobs := by
      refine s.jobs_modifyGroup group fun g job mem => ?_
      unfold Group.next at mem
      split at mem
      · exact mem
      · rename_i first rest waiting
        rw [waiting]
        exact List.mem_cons_of_mem _ mem
    cases waiting : g.jobs with
    | nil =>
      simp only [turnStep, Frame.deed, found, waiting, Group.next]
      exact ⟨trivial, Plain.vouched plain_nil, fun job mem => (jobs job (fewer mem)).mono _⟩
    | cons job rest =>
      have turn : turnStep client s group =
          { shared := s.modifyGroup group fun g => g.next.2
            frames := job.run client s.futures ++ [.endTurn group] } := by
        simp only [turnStep, found, Group.next, waiting]
      simp only [turn, Frame.deed, found, waiting]
      refine Job.start_traced jobs ?_ (by simp [Frame.isPlain]) fewer
      refine List.mem_append_right _ (List.mem_flatMap.2 ⟨g, List.mem_of_getElem? found, ?_⟩)
      rw [waiting]
      exact List.mem_cons_self

omit jobs in
theorem Callback.notify_vouched {f : FutureId} {outcome : Outcome} {callback : Callback W}
    (mem : callback.deed f outcome ∈ ds) :
    ∀ frame ∈ callback.notify outcome, frame.Vouched client ds := by
  cases callback with
  | silent => exact Plain.vouched plain_nil
  | client notify => exact Plain.vouched (by simp [Callback.notify, Frame.isPlain, Role.isPlain])
  | argument r =>
    cases outcome with
    | ok value => exact vouched_cons.2 ⟨trivial, Plain.vouched plain_nil⟩
    | error e =>
      refine vouched_append.2 ⟨?_, Plain.vouched (by simp [Frame.isPlain])⟩
      exact Next.resume_vouched (.awaiting f r) false (.error e) mem

theorem settleStep_traced (f : FutureId) (outcome : Outcome) :
    Traced client ds (Frame.deed client s (.settle f outcome)) (settleStep s f outcome) := by
  cases found : s.futures.get? f with
  | none =>
    simp only [settleStep, Frame.deed, found]
    exact .of_same jobs trivial (Plain.vouched plain_nil) rfl rfl
  | some u =>
    obtain ⟨strand, returnType, state, callback, notified, claimed, kept⟩ := u
    cases state with
    | some earlier =>
      simp only [settleStep, Frame.deed, found]
      exact .of_same jobs trivial (Plain.vouched plain_nil) rfl rfl
    | none =>
      cases callback with
      | none =>
        simp only [settleStep, Frame.deed, found]
        exact .of_same jobs trivial (Plain.vouched (by simp [Frame.isPlain])) rfl rfl
      | some callback =>
        simp only [settleStep, Frame.deed, found]
        refine .of_same jobs ?_ (vouched_append.2 ⟨?_, ?_⟩) rfl rfl
        · cases callback with
          | argument r => cases outcome with
            | ok value => trivial
            | error e => exact ⟨e, rfl⟩
          | _ => trivial
        · exact Callback.notify_vouched (f := f) (List.mem_append_right _ (List.mem_singleton.2 rfl))
        · exact Plain.vouched (by simp [Frame.isPlain])

theorem evaluateStep_traced (r : Resolution W) :
    Traced client ds (Frame.deed client s (.evaluate r)) (evaluateStep s r) := by
  cases pending : r.pending with
  | nil =>
    simp only [evaluateStep, Frame.deed, pending]
    refine .of_same jobs ⟨pending, rfl⟩ (vouched_append.2 ⟨?_, ?_⟩) rfl rfl
    · exact Next.resume_vouched (.filling r) false (.ok r.args)
        (List.mem_append_right _ (List.mem_singleton.2 rfl))
    · exact Plain.vouched (by simp [Frame.isPlain])
  | cons omitted rest =>
    simp only [evaluateStep, Frame.deed, pending]
    refine .of_same jobs trivial (vouched_cons.2 ⟨?_, ?_⟩) rfl rfl
    · exact ⟨_, List.mem_append_right _ (List.mem_singleton.2 rfl), rfl⟩
    · exact Plain.vouched (by simp [Frame.isPlain])

theorem openCallStep_traced {call : Call W} {metadata : Metadata} {fault : Option Panic}
    (vouched : (Frame.openCall call metadata fault).Vouched client ds) :
    Traced client ds (Frame.deed client s (.openCall call metadata fault))
      (openCallStep s call metadata fault) := by
  have opened : fault = none →
      (call.open metadata s.futures.nextId).Vouched (ds ++
        [Frame.deed client s (.openCall call metadata fault)]) := by
    rintro rfl
    exact ⟨call, metadata, s.futures.nextId,
      List.mem_append_right _ (List.mem_singleton.2 rfl), rfl⟩
  refine .of_same jobs vouched ?_ rfl rfl
  refine vouched_append.2 ⟨?_, Plain.vouched (by simp [Frame.isPlain])⟩
  cases fault with
  | some panic => exact Plain.vouched (by simp [Frame.isPlain])
  | none =>
    cases mode : call.mode with
    | byIsolation =>
      simp only
      exact vouched_cons.2 ⟨⟨rfl, opened rfl⟩, Plain.vouched plain_nil⟩
    | _ =>
      simp only
      exact vouched_cons.2 ⟨opened rfl, Plain.vouched plain_nil⟩

theorem Frame.step_traced {sight : Sight} {choice : Choice} {frame : Frame W} {p : Progress W}
    (vouched : frame.Vouched client ds) (taken : frame.step client sight choice s = some p) :
    Traced client ds (frame.deed client s) p := by
  by_cases still : frame.idles = true
  · obtain ⟨idle, deed⟩ := step_of_idles still taken
    rw [deed]
    exact ⟨trivial, idle.frames.vouched, fun job mem => (jobs job (idle.jobs mem)).mono _⟩
  cases frame with
  | running role code => exact Code.step_traced jobs vouched taken
  | waiting role next => cases taken
  | claim p => cases taken; exact claimStep_traced jobs vouched
  | enter p => cases taken; exact enterStep_traced jobs vouched
  | push job asker => cases taken; exact pushStep_traced jobs vouched
  | checkOpen receiver job asker =>
    cases taken
    refine .of_same jobs trivial ?_ rfl rfl
    simp only [checkOpenStep]
    split
    · exact Plain.vouched (by simp)
    · exact vouched_cons.2 ⟨List.mem_append_left _ vouched, Plain.vouched plain_nil⟩
  | locate receiver job asker =>
    cases taken
    refine ⟨⟨asker, vouched⟩, ?_, fun other mem => (jobs other ?_).mono _⟩
    · exact vouched_cons.2 ⟨List.mem_append_left _ vouched, Plain.vouched plain_nil⟩
    · simp only [locateStep, Shared.locate] at mem
      split at mem
      · exact mem
      · rcases List.mem_append.1 mem with queued | onLane
        · exact List.mem_append_left _ queued
        · refine List.mem_append_right _ ?_
          simpa [Shared.laneJobs] using onLane
  | append receiver group job asker => cases taken; exact appendStep_traced jobs vouched
  | settle f outcome => cases taken; exact settleStep_traced jobs f outcome
  | query object site =>
    cases taken
    refine .of_same jobs trivial (vouched_cons.2 ⟨⟨?_, _, .refl⟩, Plain.vouched plain_nil⟩) rfl rfl
    exact Site.Vouched.mono vouched _
  | openCall call metadata fault => cases taken; exact openCallStep_traced jobs vouched
  | track call lane =>
    cases taken
    have own : (call.lookup lane).Vouched (W := W) ds := fun f _ => ⟨call, lane, vouched, rfl⟩
    refine .of_same jobs own ?_ rfl rfl
    exact vouched_cons.2 ⟨⟨rfl, own.mono _⟩, Plain.vouched plain_nil⟩
  | evaluate r => cases taken; exact evaluateStep_traced jobs r
  | poll => cases taken; exact pollStep_traced jobs
  | turn group => cases taken; exact turnStep_traced jobs group
  | askListeners stopping =>
    cases taken
    refine .of_same jobs trivial ?_ rfl rfl
    simp only [askListenersStep]
    split
    · exact Plain.vouched (by simp [isPlain])
    · exact vouched_cons.2 ⟨trivial, Plain.vouched plain_nil⟩
  | openStop listener lane metadata stopping =>
    cases taken
    refine .of_same jobs ⟨listener, rfl⟩ (vouched_cons.2 ⟨?_, ?_⟩) rfl rfl
    · exact ⟨_, List.mem_append_right _ (List.mem_singleton.2 rfl), rfl⟩
    · exact Plain.vouched (by simp [isPlain])
  | _ => exact absurd rfl still

theorem Move.traced {sight : Sight} {choice : Choice} {top : List (Frame W)} {p : Progress W}
    (vouched : ∀ frame ∈ top, frame.Vouched client ds) (move : Move client sight choice s top p) :
    Traced client ds (Move.deed client s top) p := by
  cases move with
  | receive reply role next =>
    have idle := s.receive_idle (p := { shared := s.receive reply }) reply plain_nil rfl
    refine ⟨trivial, ?_, fun job mem => (jobs job (idle.jobs mem)).mono _⟩
    refine vouched_cons.2 ⟨?_, Plain.vouched plain_nil⟩
    exact (vouched (.waiting role next) (by simp) reply).mono _
  | pass reply held =>
    exact .of_same jobs trivial (Plain.vouched (by simp [Frame.isPlain])) rfl rfl
  | act taken => exact Frame.step_traced jobs (vouched _ (List.mem_singleton.2 rfl)) taken

end Steps

/-! ## Runs -/

namespace State

/-- Everything in a state can be traced back to deeds, and so can the deeds. -/
structure Vouched (client : Client W) (ds : List (Deed W)) (s : State W) : Prop where
  frames : ∀ t ∈ s.threads, ∀ frame ∈ t.stack, frame.Vouched client ds
  jobs : ∀ job ∈ s.shared.jobs, job.Vouched ds
  deeds : ∀ δ ∈ ds, δ.Vouched client ds

theorem Vouched.step {client : Client W} {s s' : State W} {thread : ThreadId} {choice : Choice}
    {ds : List (Deed W)} (h : s.Vouched client ds)
    (taken : s.step client thread choice = some s') :
    s'.Vouched client (ds ++ [(⟨s, thread⟩ : Beat W).deed client]) := by
  obtain ⟨acted⟩ := step_cases taken
  have own := h.frames acted.actor acted.actor_mem
  rw [acted.stack] at own
  obtain ⟨top, below⟩ := vouched_append.1 own
  obtain ⟨deed, frames, jobs⟩ := Move.traced h.jobs top acted.move
  rw [← deed_of_acted acted] at deed frames jobs
  refine ⟨fun t mem frame inStack => ?_, ?_, fun δ mem => ?_⟩
  · rw [acted.threads'] at mem
    have others := h.frames
    rw [acted.threads] at others
    simp only [List.mem_append, List.mem_cons, List.mem_map] at mem
    rcases mem with (earlier | rfl | later) | ⟨code, spawned, rfl⟩
    · exact (others t (by simp [earlier]) frame inStack).mono _
    · rcases List.mem_append.1 inStack with new | old
      · exact frames frame new
      · exact (below frame old).mono _
    · exact (others t (by simp [later]) frame inStack).mono _
    · cases List.mem_singleton.1 inStack
      trivial
  · rw [acted.shared']
    exact jobs
  · rcases List.mem_append.1 mem with earlier | new
    · exact (h.deeds δ earlier).mono _
    · rw [List.mem_singleton.1 new]
      exact deed.mono _

theorem Log.vouched {client : Client W} {workers : Nat} {world : W} {kept : List ObjectId}
    {threads : List (Code W)} {log : List (Beat W)} {s : State W}
    (run : Log client (State.start workers world kept threads) log s) :
    s.Vouched client (deeds client log) := by
  induction run with
  | start =>
    refine ⟨fun t mem frame inStack => ?_, fun job mem => ?_, fun δ mem => by cases mem⟩
    · rcases List.mem_append.1 mem with worker | ofClient
      · rw [(List.mem_replicate.1 worker).2] at inStack
        cases List.mem_singleton.1 inStack
        trivial
      · obtain ⟨code, _, rfl⟩ := List.mem_map.1 ofClient
        cases List.mem_singleton.1 inStack
        trivial
    · cases mem
  | step _ taken ih =>
    rw [deeds_append]
    exact ih.step taken

end State
end Strands
