/-
Invocations that are rejected.

An invocation may lack its receiver or its method.  It is then answered with what it lacks,
and before that its callback is told so, once.  Nothing else comes of it, in whatever state
the runtime is: `Invoking.Underway.checked`.  What the callback itself does on that occasion is
its own, whether it asks for something, invokes again or panics.
-/
import Strands.Proofs.Calling
import Strands.Proofs.Hosted

namespace Strands

variable {W : Type}

/-- What a callback is told of an invocation that is rejected. -/
def ValidationError.outcome (e : ValidationError) : Outcome := .error (.runtime e.message)

/-- An invocation, complete or not, that a thread is about to make, and what the thread has
left to do then. -/
structure Invoking (W : Type) where
  thread : ThreadId
  role : Role W
  mode : Mode
  invocation : Invocation
  callback : Outcome → Code W
  next : Reply → Code W
  below : List (Frame W)

namespace Invoking

variable (d : Invoking W)

def begun : List (Frame W) :=
  .running d.role (.invoke d.mode d.invocation d.callback d.next) :: d.below

def replies (reply : Reply) : List (Frame W) := .deliver reply :: .waiting d.role d.next :: d.below

/-- What is left to do once a callback has been told that the invocation is rejected. -/
def rejected (e : ValidationError) : List (Frame W) :=
  .letGo d.invocation.held :: d.replies (.invalid e)

abbrev Lends (e : ValidationError) (ended : Option (Except Panic Outcome)) :
    List (Frame W) → Prop :=
  Hosted (.callback e.outcome) (d.callback e.outcome) (d.rejected e) ended

/-- A step of the thread that makes an invocation is none of its callback's. -/
def owns (e : ValidationError) (beat : Beat W) : Bool :=
  beat.thread == d.thread && (beat.s.stackOf d.thread).length ≤ (d.rejected e).length

def own (e : ValidationError) (log : List (Beat W)) : List (Beat W) := log.filter (d.owns e)

/-- What was left to do at each of the invocation's own steps. -/
def path (e : ValidationError) (log : List (Beat W)) : List (List (Frame W)) :=
  (d.own e log).map fun beat => beat.s.stackOf d.thread

inductive Rejects (e : ValidationError) : List (Frame W) → List (Frame W) → Prop
  /-- The callback is told. -/
  | notifies : Rejects e d.begun
      (.running (.callback e.outcome) (d.callback e.outcome) :: d.rejected e)
  | returns : Rejects e (d.rejected e) (d.replies (.invalid e))

/-- What becomes of an invocation that is rejected. -/
structure Rejected (client : Client W) (e : ValidationError) (during : List (Beat W))
    (s : State W) : Prop where
  /-- It takes two steps of its own, one after the other. -/
  order : d.path e during <+: [d.begun, d.rejected e]
  /-- The first tells the callback, the second returns, and neither does anything else. -/
  own : ∀ beat ∈ d.own e during, ∀ choice s', beat.s.step client beat.thread choice = some s' →
    d.Rejects e (beat.s.stackOf d.thread) (s'.stackOf d.thread) ∧ beat.s.Untouched s' d.thread
  /-- In all others the callback has the thread. -/
  lends : ∀ beat ∈ during, beat.thread = d.thread → d.owns e beat = false →
    ∃ ended, d.Lends e ended (beat.s.stackOf d.thread)
  /-- A panic of the callback ends there: what waits for the reply stays. -/
  stays : s.stackOf d.thread = d.begun ∨
    .waiting d.role d.next :: d.below <:+ s.stackOf d.thread
  /-- It goes on unless the callback has the thread. -/
  goes : ∀ choice, (∃ s', s.step client d.thread choice = some s') ∨
    d.Lends e none (s.stackOf d.thread)
  /-- It is answered with what it lacks, after the callback was told and has returned. -/
  answers : ∀ reply, s.stackOf d.thread = d.replies reply →
    reply = .invalid e ∧ d.path e during = [d.begun, d.rejected e]

/-- An invocation is answered with an error just if it lacks something. -/
structure Checked (client : Client W) (during : List (Beat W)) (s : State W) : Prop where
  exact : ∀ reply, s.stackOf d.thread = d.replies reply →
    ∀ e, reply = .invalid e ↔ d.invocation.validate = .error e
  accepted : ∀ reply target, s.stackOf d.thread = d.replies reply →
    d.invocation.validate = .ok target → ∃ f, reply = .future f
  rejected : ∀ e, d.invocation.validate = .error e → d.Rejected client e during s

/-- A thread has made the invocation and is not about to be replied to.  The state in which
it was made may be any. -/
structure Underway (client : Client W) (s₀ : State W) (during : List (Beat W)) (s : State W) :
    Prop where
  called : s₀.stackOf d.thread = d.begun
  going : State.Log client s₀ during s
  unreplied : ∀ beat ∈ during, beat.thread = d.thread →
    ∀ reply, beat.s.stackOf d.thread ≠ d.replies reply

variable {d} {client : Client W} {s₀ s s' : State W} {during : List (Beat W)} {choice : Choice}
  {e : ValidationError}

/-! ## Runs of an invocation -/

theorem Underway.upto {beat : Beat W} (underway : d.Underway client s₀ during s)
    (mem : beat ∈ during) : ∃ earlier, d.Underway client s₀ earlier beat.s := by
  obtain ⟨called, going, unreplied⟩ := underway
  obtain ⟨earlier, later, rfl⟩ := List.append_of_mem mem
  refine ⟨earlier, called, going.split.1, fun other mem => ?_⟩
  exact unreplied other (List.mem_append_left _ mem)

theorem own_append (log : List (Beat W)) (beat : Beat W) :
    d.own e (log ++ [beat]) = if d.owns e beat then d.own e log ++ [beat] else d.own e log := by
  simp only [own, List.filter_append, List.filter_cons, List.filter_nil]
  split
  · rfl
  · exact List.append_nil _

theorem path_of_own {log : List (Beat W)} {beat : Beat W} (own : d.owns e beat = true) :
    d.path e (log ++ [beat]) = d.path e log ++ [beat.s.stackOf d.thread] := by
  rw [path, own_append, if_pos own, List.map_append]
  rfl

theorem path_of_not_own {log : List (Beat W)} {beat : Beat W} (other : d.owns e beat = false) :
    d.path e (log ++ [beat]) = d.path e log := by
  rw [path, own_append, other]
  rfl

theorem owns_of_begun (stack : s.stackOf d.thread = d.begun) :
    d.owns e ⟨s, d.thread⟩ = true := by
  simp [owns, stack, begun, Invoking.rejected, Invoking.replies]

theorem owns_of_rejected (stack : s.stackOf d.thread = d.rejected e) :
    d.owns e ⟨s, d.thread⟩ = true := by simp [owns, stack]

theorem not_owns_of_lends {ended : Option (Except Panic Outcome)}
    (lends : d.Lends e ended (s.stackOf d.thread)) : d.owns e ⟨s, d.thread⟩ = false := by
  have long := lends.suffix.2
  simp only [owns, beq_self_eq_true, Bool.true_and, decide_eq_false_iff_not]
  omega

/-! ## Rejected invocations -/

section Rejecting

variable (rejects : d.invocation.validate = .error e)

include rejects

theorem dispatch_of_rejects : d.invocation.dispatch d.mode d.callback =
    [.running (.callback e.outcome) (d.callback e.outcome), .letGo d.invocation.held,
      .deliver (.invalid e)] := by
  unfold Invocation.validate at rejects
  unfold Invocation.dispatch
  cases receiver : d.invocation.receiver with
  | none =>
    rw [receiver] at rejects
    cases rejects
    rfl
  | some object =>
    cases method : d.invocation.method with
    | none =>
      rw [receiver, method] at rejects
      cases rejects
      rfl
    | some name =>
      rw [receiver, method] at rejects
      cases rejects

theorem begun_step_of_rejects (stack : s.stackOf d.thread = d.begun)
    (taken : s.step client d.thread choice = some s') :
    s'.stackOf d.thread =
        .running (.callback e.outcome) (d.callback e.outcome) :: d.rejected e ∧
      s.Untouched s' d.thread := by
  obtain ⟨after, untouched⟩ := State.leaves_of_frame stack (by rintro reply ⟨⟩) (fun _ => rfl) taken
  refine ⟨?_, untouched⟩
  rw [after, dispatch_of_rejects rejects]
  rfl

end Rejecting

theorem rejected_step (stack : s.stackOf d.thread = d.rejected e)
    (taken : s.step client d.thread choice = some s') :
    s'.stackOf d.thread = d.replies (.invalid e) ∧ s.Untouched s' d.thread :=
  State.leaves_of_frame stack (by rintro reply ⟨⟩) (fun _ => rfl) taken

variable (d) in
inductive Rejecting (e : ValidationError) : List (List (Frame W)) → List (Frame W) → Prop
  | begun : Rejecting e [] d.begun
  | lends {stack : List (Frame W)} (ended : Option (Except Panic Outcome)) :
      d.Lends e ended stack → Rejecting e [d.begun] stack
  | returns : Rejecting e [d.begun] (d.rejected e)
  | replies : Rejecting e [d.begun, d.rejected e] (d.replies (.invalid e))

theorem Rejecting.ne_nil {path : List (List (Frame W))} {stack : List (Frame W)}
    (rejecting : d.Rejecting e path stack) : stack ≠ [] := by
  cases rejecting with
  | lends ended lends =>
    obtain ⟨frame, below, rfl⟩ := lends.exists_cons
    simp
  | _ => simp [Invoking.begun, Invoking.rejected, Invoking.replies]

/-- A step of the thread leads from one stage to the next. -/
theorem Rejecting.step {log : List (Beat W)} (rejects : d.invocation.validate = .error e)
    (rejecting : d.Rejecting e (d.path e log) (s.stackOf d.thread))
    (unreplied : ∀ reply, s.stackOf d.thread ≠ d.replies reply)
    (taken : s.step client d.thread choice = some s') :
    d.Rejecting e (d.path e (log ++ [⟨s, d.thread⟩])) (s'.stackOf d.thread) := by
  generalize stack : s.stackOf d.thread = frames at rejecting
  generalize sofar : d.path e log = path at rejecting
  cases rejecting with
  | begun =>
    rw [path_of_own (owns_of_begun stack), sofar, stack,
      (begun_step_of_rejects rejects stack taken).1]
    exact .lends _ Hosted.begins
  | lends ended lends =>
    rw [← stack] at lends
    rw [path_of_not_own (not_owns_of_lends lends), sofar]
    cases ended with
    | none =>
      obtain ⟨ended, lends⟩ := State.hosted_step lends taken
      exact .lends ended lends
    | some result =>
      rw [(State.ending_step lends taken).2]
      exact .returns
  | returns =>
    rw [path_of_own (owns_of_rejected stack), sofar, stack, (rejected_step stack taken).1]
    exact .replies
  | replies => exact absurd stack (unreplied _)

theorem Underway.rejecting (underway : d.Underway client s₀ during s)
    (rejects : d.invocation.validate = .error e) :
    d.Rejecting e (d.path e during) (s.stackOf d.thread) := by
  have others {log : List (Beat W)} {stack : List (Frame W)} {beat : Beat W}
      (different : beat.thread ≠ d.thread) (rejecting : d.Rejecting e (d.path e log) stack) :
      d.Rejecting e (d.path e (log ++ [beat])) stack := by
    rw [path_of_not_own (by simp [owns, different])]
    exact rejecting
  exact underway.going.own_induction (P := fun log => d.Rejecting e (d.path e log))
    underway.unreplied (underway.called ▸ .begun) Rejecting.ne_nil others (Rejecting.step rejects)

theorem Underway.rejects_step (underway : d.Underway client s₀ during s)
    (rejects : d.invocation.validate = .error e) (own : d.owns e ⟨s, d.thread⟩ = true)
    (unreplied : ∀ reply, s.stackOf d.thread ≠ d.replies reply)
    (taken : s.step client d.thread choice = some s') :
    d.Rejects e (s.stackOf d.thread) (s'.stackOf d.thread) ∧ s.Untouched s' d.thread := by
  have rejecting := underway.rejecting rejects
  generalize stack : s.stackOf d.thread = frames at rejecting
  generalize d.path e during = path at rejecting
  cases rejecting with
  | begun =>
    obtain ⟨after, untouched⟩ := begun_step_of_rejects rejects stack taken
    exact ⟨after ▸ .notifies, untouched⟩
  | lends ended lends =>
    rw [← stack] at lends
    rw [not_owns_of_lends lends] at own
    cases own
  | returns =>
    obtain ⟨after, untouched⟩ := rejected_step stack taken
    exact ⟨after ▸ .returns, untouched⟩
  | replies => exact absurd stack (unreplied _)

theorem Underway.lends_of_not_own (underway : d.Underway client s₀ during s)
    (rejects : d.invocation.validate = .error e) (other : d.owns e ⟨s, d.thread⟩ = false)
    (unreplied : ∀ reply, s.stackOf d.thread ≠ d.replies reply) :
    ∃ ended, d.Lends e ended (s.stackOf d.thread) := by
  have rejecting := underway.rejecting rejects
  generalize stack : s.stackOf d.thread = frames at rejecting
  generalize d.path e during = path at rejecting
  cases rejecting with
  | begun => rw [owns_of_begun stack] at other; cases other
  | lends ended lends => exact ⟨ended, lends⟩
  | returns => rw [owns_of_rejected stack] at other; cases other
  | replies => exact absurd stack (unreplied _)

/-- The thread of a rejected invocation can go on, unless the callback has it. -/
theorem Rejecting.goes {path : List (List (Frame W))}
    (rejecting : d.Rejecting e path (s.stackOf d.thread)) (choice : Choice) :
    (∃ s', s.step client d.thread choice = some s') ∨ d.Lends e none (s.stackOf d.thread) := by
  generalize stack : s.stackOf d.thread = frames at rejecting
  cases rejecting with
  | begun | returns =>
    exact .inl (State.exists_step stack (by rintro reply ⟨⟩) fun sight => ⟨_, rfl⟩)
  | lends ended lends =>
    cases ended with
    | none => exact .inr lends
    | some result => exact .inl (State.can_end client choice (stack ▸ lends))
  | replies =>
    obtain ⟨s', taken, _⟩ : ∃ s', s.step client d.thread choice = some s' ∧ _ :=
      State.can_receive stack
    exact .inl ⟨s', taken⟩

section Stages

variable {path : List (List (Frame W))} {stack : List (Frame W)}

theorem Rejecting.order (rejecting : d.Rejecting e path stack) :
    path <+: [d.begun, d.rejected e] := by
  cases rejecting with
  | begun => exact List.nil_prefix
  | lends | returns => exact List.prefix_append [_] _
  | replies => exact List.prefix_refl _

theorem Rejecting.stays (rejecting : d.Rejecting e path stack) :
    stack = d.begun ∨ .waiting d.role d.next :: d.below <:+ stack := by
  cases rejecting with
  | begun => exact .inl rfl
  | lends ended lends => exact .inr ((List.suffix_append [_, _] _).trans lends.suffix.1)
  | returns => exact .inr (List.suffix_append [_, _] _)
  | replies => exact .inr (List.suffix_cons _ _)

theorem Rejecting.of_replies {reply : Reply} (rejecting : d.Rejecting e path (d.replies reply)) :
    reply = .invalid e ∧ path = [d.begun, d.rejected e] := by
  generalize eq : d.replies reply = stack at rejecting
  cases rejecting with
  | lends ended lends =>
    have long := lends.suffix.2
    simp only [← eq, Invoking.rejected, Invoking.replies, List.length_cons] at long
    omega
  | begun | returns => cases eq
  | replies => cases eq; exact ⟨rfl, rfl⟩

end Stages

/-- A rejected invocation tells its callback and returns, and does nothing else. -/
theorem Underway.rejected (underway : d.Underway client s₀ during s)
    (rejects : d.invocation.validate = .error e) : d.Rejected client e during s := by
  have rejecting := underway.rejecting rejects
  refine ⟨rejecting.order, fun beat mem choice s' taken => ?_, fun beat mem thread other => ?_,
    rejecting.stays, fun choice => rejecting.goes choice, fun reply replied => ?_⟩
  · obtain ⟨inLog, own⟩ := List.mem_filter.1 mem
    obtain ⟨earlier, sofar⟩ := underway.upto inLog
    obtain ⟨here, thread⟩ := beat
    obtain rfl : thread = d.thread := by
      simp only [owns, Bool.and_eq_true, beq_iff_eq] at own
      exact own.1
    exact sofar.rejects_step rejects own (underway.unreplied _ inLog rfl) taken
  · obtain ⟨earlier, sofar⟩ := underway.upto mem
    obtain ⟨here, _⟩ := beat
    obtain rfl := thread
    exact sofar.lends_of_not_own rejects other (underway.unreplied _ mem rfl)
  · rw [replied] at rejecting
    exact rejecting.of_replies

end Invoking

/-! ## Complete invocations -/

theorem Invocation.complete_of_validate {inv : Invocation} {receiver : ObjectId}
    {method : String} (valid : inv.validate = .ok (receiver, method)) :
    inv.receiver = some receiver ∧ inv.method = some method := by
  unfold validate at valid
  cases given : inv.receiver with
  | none => rw [given] at valid; cases valid
  | some object =>
    cases named : inv.method with
    | none => rw [given, named] at valid; cases valid
    | some name => rw [given, named] at valid; cases valid; exact ⟨rfl, rfl⟩

namespace Calling

variable {d : Calling W} {client : Client W} {s s' : State W} {choice : Choice}

variable (d client) in
inductive Accepting : List (Frame W) → Prop
  | begun : Accepting d.begun
  | asks : Accepting (.query d.receiver (.metadata d.call) :: d.base)
  | answers {stack : List (Frame W)} (n : Nat) (ended : Option (Except Panic Outcome)) :
      Hosted (.query d.receiver (.metadata d.call)) (client.consult d.receiver n) d.base ended
        stack → Accepting stack
  | opens (metadata : Metadata) (fault : Option Panic) :
      Accepting (.openCall d.call metadata fault :: d.base)
  /-- The future is made, and will be replied with, whatever happens above. -/
  | made (f : FutureId) (above : List (Frame W)) : Accepting (above ++ d.reply f)
  | replies (f : FutureId) : Accepting (d.replies (.future f))

theorem Accepting.ne_nil {stack : List (Frame W)} (accepting : d.Accepting client stack) :
    stack ≠ [] := by
  cases accepting with
  | answers n ended hosted =>
    obtain ⟨frame, below, rfl⟩ := hosted.exists_cons
    simp
  | _ => simp [Calling.begun, Calling.reply, Calling.replies]

/-- A step of the thread leads from one stage to the next. -/
theorem Accepting.step (accepting : d.Accepting client (s.stackOf d.thread))
    (unreplied : ∀ reply, s.stackOf d.thread ≠ d.replies reply)
    (taken : s.step client d.thread choice = some s') :
    d.Accepting client (s'.stackOf d.thread) := by
  generalize stack : s.stackOf d.thread = frames at accepting
  cases accepting with
  | begun =>
    obtain ⟨worker, p, moved, _, after⟩ := State.own_step stack (by rintro reply ⟨⟩) taken
    cases moved
    rw [after]
    simp only [Invocation.dispatch, d.hasReceiver, d.hasMethod]
    cases d.invocation.metadata with
    | none => exact .asks
    | some metadata => exact .opens metadata none
  | asks =>
    obtain ⟨worker, p, moved, _, after⟩ := State.own_step stack (by rintro reply ⟨⟩) taken
    cases moved
    rw [after]
    exact .answers _ _ Hosted.begins
  | answers n ended hosted =>
    rw [← stack] at hosted
    cases ended with
    | none =>
      obtain ⟨ended, hosted⟩ := State.hosted_step hosted taken
      exact .answers n ended hosted
    | some result =>
      rw [(State.ending_step hosted taken).2]
      cases result with
      | ok outcome => exact .opens _ none
      | error panic => exact .opens _ (some panic)
  | opens metadata fault =>
    obtain ⟨worker, p, moved, _, after⟩ := State.own_step stack (by rintro reply ⟨⟩) taken
    cases moved
    rw [after]
    simp only [openCallStep, List.append_assoc]
    exact .made _ _
  | made f above =>
    cases above with
    | nil =>
      obtain ⟨after, passed, _, replies⟩ :
          ∃ after, s.step client d.thread choice = some after ∧ _ ∧ after.stackOf d.thread = _ :=
        State.can_pass stack
      obtain rfl := Option.some.inj (passed.symm.trans taken)
      rw [replies]
      exact .replies f
    | cons first above =>
      obtain ⟨above', after⟩ := State.step_over (by rintro held ⟨⟩) (by rintro role next ⟨⟩) stack
        (by simp) taken
      rw [after]
      exact .made f above'
  | replies f => exact absurd stack (unreplied _)

theorem Accepting.of_replies {reply : Reply} (accepting : d.Accepting client (d.replies reply)) :
    ∃ f, reply = .future f := by
  generalize eq : d.replies reply = stack at accepting
  have length : stack.length = d.below.length + 2 := by rw [← eq]; rfl
  cases accepting with
  | begun | asks | opens => cases eq
  | answers n ended hosted =>
    have long := hosted.suffix.2
    simp only [Calling.base, List.length_cons] at long
    omega
  | made f above =>
    simp only [Calling.reply, Calling.base, List.length_append, List.length_cons] at length
    omega
  | replies f => cases eq; exact ⟨f, rfl⟩

end Calling

namespace Invoking

variable {d : Invoking W} {client : Client W} {s₀ s : State W} {during : List (Beat W)}

def calling {receiver : ObjectId} {method : String}
    (valid : d.invocation.validate = .ok (receiver, method)) : Calling W where
  thread := d.thread
  role := d.role
  mode := d.mode
  invocation := d.invocation
  callback := d.callback
  next := d.next
  below := d.below
  receiver := receiver
  method := method
  hasReceiver := (Invocation.complete_of_validate valid).1
  hasMethod := (Invocation.complete_of_validate valid).2

theorem Underway.accepted {target : ObjectId × String} {reply : Reply}
    (underway : d.Underway client s₀ during s) (valid : d.invocation.validate = .ok target)
    (replied : s.stackOf d.thread = d.replies reply) : ∃ f, reply = .future f := by
  have accepting : (d.calling valid).Accepting client (s.stackOf d.thread) :=
    underway.going.own_induction (P := fun _ => (d.calling valid).Accepting client)
      underway.unreplied (underway.called ▸ .begun) Calling.Accepting.ne_nil (fun _ => id)
      Calling.Accepting.step
  rw [replied] at accepting
  exact Calling.Accepting.of_replies accepting

/-- Every invocation is checked first, and nothing comes of one that is rejected. -/
theorem Underway.checked (underway : d.Underway client s₀ during s) :
    d.Checked client during s where
  exact reply replied e := by
    cases checked : d.invocation.validate with
    | ok target =>
      obtain ⟨f, rfl⟩ := underway.accepted checked replied
      exact ⟨by rintro ⟨⟩, by rintro ⟨⟩⟩
    | error reason =>
      obtain ⟨rfl, _⟩ := (underway.rejected checked).answers reply replied
      exact ⟨fun eq => by cases eq; rfl, fun eq => by cases eq; rfl⟩
  accepted reply target replied valid := underway.accepted valid replied
  rejected e := underway.rejected

end Invoking

namespace State

/-! ## A callback that panics -/

/-- A client's callback, told that the method is missing, invokes once more, without a receiver,
and panics when it is told so. -/
def nullStart : State Unit :=
  State.start 1 () [1] [.invoke .byIsolation { receiver := some 1 }
    (fun _ => .invoke .sequential { method := some "m" } (fun _ => .panic .other)
      fun _ => .panic (.text "again"))
    fun _ => Sample.done]

def nullLog : List (Beat Unit) := nullStart.beats (Sample.client Sample.value) (List.replicate 7 1)

def nullEnd : State Unit :=
  (nullStart.replay (Sample.client Sample.value) (List.replicate 7 1)).2

def nullInvoking : Invoking Unit where
  thread := 1
  role := .thread
  mode := .byIsolation
  invocation := { receiver := some 1 }
  callback _ := .invoke .sequential { method := some "m" } (fun _ => .panic .other)
    fun _ => .panic (.text "again")
  next _ := Sample.done
  below := []

/-- The callback has panicked, and the reply is next. -/
theorem checked_nullInvoking :
    nullInvoking.Rejected (Sample.client Sample.value) .nullMethodName nullLog nullEnd ∧
      (nullInvoking.path .nullMethodName nullLog).length = 2 := by
  have short : ∀ beat ∈ nullLog, (beat.s.stackOf 1).length ≠ 2 := by decide +kernel
  have underway : nullInvoking.Underway (Sample.client Sample.value) nullStart nullLog nullEnd := {
    called := rfl
    going := log_beats _ _ _
    unreplied := fun beat mem _ reply replied => short beat mem (congrArg List.length replied) }
  exact ⟨underway.checked.rejected _ rfl, by decide +kernel⟩

end State
end Strands
