/-
Calls that leave the lane to the receiver's type.

Such an invocation does what it would do if its maker had named the lane: the free one if the
type and the method are both isolated, and the receiver's group otherwise.  Any run of the one
is seen as a run of the other (`Invoking.chooses`), whatever state it begins in, whatever the
invocation lacks, and whatever other threads do meanwhile.  The one asks the receiver once more,
between making the future and counting the call; a receiver that answers alike and does nothing
else leaves no trace of that but in the record of who was asked.

The states of both runs are related by `Invoking.Agree`.  At most steps both runs take the same
one (`Agree.step`); while the receiver is asked for the lane the other run waits
(`Agree.lag`).
-/
import Strands.Proofs.Askings
import Strands.Proofs.Rejection

namespace Strands

variable {W : Type}

/-! ## Receivers that answer alike -/

/-- Code that does nothing until it ends, and is not waited for. -/
inductive Code.Mute : Code W → Prop
  | finish (outcome : Outcome) : Mute (.finish outcome)
  | act {update : W → W} {next : W → Code W} : (∀ world, update world = world) →
      (∀ world, Mute (next world)) → Mute (.act update next)

/-- An object has a type, and whenever it is asked it says so and does nothing else. -/
structure Client.Steady (client : Client W) (object : ObjectId) (type : ObjectType W) : Prop where
  consult : ∃ code : Code W, code.Mute ∧ ∀ n, client.consult object n = code
  typeOf : ∀ world, client.typeOf object world = type

/-! ## The lane named by the maker -/

namespace Invocation

/-- Whether the call may skip the receiver's group lane, or what it lacks. -/
def isolation (inv : Invocation) (type : ObjectType W) : Except ValidationError Isolation :=
  inv.validate.map fun target => type.isolation target.2

/-- The mode that names the lane which the type would choose. -/
def explicit (inv : Invocation) (type : ObjectType W) : Mode :=
  match inv.isolation type with
  | .ok isolation => if isolation.isIsolated then .concurrent else .sequential
  | .error _ => .sequential

theorem explicit_eq_concurrent_iff {inv : Invocation} {type : ObjectType W} :
    inv.explicit type = .concurrent ↔
      ∃ isolation, inv.isolation type = .ok isolation ∧ isolation.typeIsolated = true ∧
        isolation.methodIsolated = true := by
  unfold explicit
  cases inv.isolation type with
  | error e => simp
  | ok isolation =>
    obtain ⟨typeIsolated, methodIsolated⟩ := isolation
    cases typeIsolated <;> cases methodIsolated <;> simp [Isolation.isIsolated]

theorem explicit_of_unknown {inv : Invocation} {type : ObjectType W} {method : String}
    (named : inv.method = some method) (unknown : type.method? method = none) :
    inv.explicit type = .sequential := by
  unfold explicit isolation validate
  cases inv.receiver with
  | none => rfl
  | some receiver =>
    simp [named, Except.map, ObjectType.isolation, ObjectType.isMethodIsolated, unknown,
      Isolation.isIsolated]

end Invocation

def State.put (s : State W) (thread : ThreadId) (stack : List (Frame W)) : State W :=
  { s with threads := s.threads.modify thread fun t => { t with stack } }

namespace Invoking

variable (d : Invoking W)

def via (mode : Mode) : Invoking W := { d with mode }

end Invoking

def Call.via (call : Call W) (mode : Mode) : Call W := { call with mode }

theorem State.getElem?_advance (s : State W) (thread i : ThreadId) (p : Progress W) :
    (s.advance thread p).threads[i]? =
      if i < s.threads.length then
        if thread = i then s.threads[i]?.map fun t => { t with stack := p.frames }
        else s.threads[i]?
      else (p.spawned.map clientThread)[i - s.threads.length]? := by
  unfold advance
  by_cases bound : i < s.threads.length
  · rw [if_pos bound, List.getElem?_append_left (by simpa using bound), List.getElem?_modify]
    split
    · rfl
    · simp
  · rw [if_neg bound, List.getElem?_append_right (by simpa using bound), List.length_modify]

/-- What a run has told, steps of which nothing is told left out. -/
def told (client : Client W) (log : List (Beat W)) : List Event :=
  (events client log).filter fun e => !e.isOther

theorem told_append (client : Client W) (log log' : List (Beat W)) :
    told client (log ++ log') = told client log ++ told client log' := by
  simp [told, events_append]

theorem told_eq_of_event {client : Client W} {s s' : State W} {thread : ThreadId}
    (same : s'.event client thread = s.event client thread) :
    told client [⟨s', thread⟩] = told client [⟨s, thread⟩] := by
  simp only [told, events, List.map_cons, List.map_nil, Beat.event, same]

theorem told_silent {client : Client W} {s : State W} {thread : ThreadId}
    (silent : s.event client thread = .other) : told client [⟨s, thread⟩] = [] := by
  simp [told, events, Beat.event, silent, Event.isOther]

namespace Invoking

variable (d : Invoking W) (client : Client W) (type : ObjectType W)

/-- A call of the invocation's, or what has become of one. -/
def Aims (receiver : ObjectId) (method : String) : Prop :=
  d.invocation.validate = .ok (receiver, method)

/-- Stacks of the thread that makes an invocation in one of two modes, at corresponding
points. -/
inductive Met (m n : Mode) : List (Frame W) → List (Frame W) → Prop
  | same (stack : List (Frame W)) : Met m n stack stack
  | begun : Met m n (d.via m).begun (d.via n).begun
  | asks {call : Call W} (rest : List (Frame W)) : d.Aims call.receiver call.method →
      Met m n (.query call.receiver (.metadata (call.via m)) :: rest)
        (.query call.receiver (.metadata (call.via n)) :: rest)
  | answers {call : Call W} {code : Code W} (rest : List (Frame W)) :
      d.Aims call.receiver call.method → code.Mute →
      Met m n (.running (.query call.receiver (.metadata (call.via m))) code :: rest)
        (.running (.query call.receiver (.metadata (call.via n))) code :: rest)
  | opens {call : Call W} (metadata : Metadata) (rest : List (Frame W)) :
      d.Aims call.receiver call.method →
      Met m n (.openCall (call.via m) metadata none :: rest)
        (.openCall (call.via n) metadata none :: rest)

/-- Stacks of the thread while the receiver is asked for the lane. -/
inductive Lags : List (Frame W) → List (Frame W) → Prop
  | lane {call : OpenCall} (rest : List (Frame W)) : d.Aims call.receiver call.method →
      Lags (.query call.receiver (.lane call) :: rest)
        (.track call (type.lane call.method) :: rest)
  | decides {call : OpenCall} {code : Code W} (rest : List (Frame W)) :
      d.Aims call.receiver call.method → code.Mute →
      Lags (.running (.query call.receiver (.lane call)) code :: rest)
        (.track call (type.lane call.method) :: rest)

/-- Stacks of the thread that makes the invocation, with the lane left to the type and with the
lane named. -/
def Matches (stack stack' : List (Frame W)) : Prop :=
  d.Met .byIsolation (d.invocation.explicit type) stack stack' ∨ d.Lags type stack stack'

/-- States that are the same, except for how often the receiver was asked and for what the
thread that makes the invocation has left to do. -/
structure Agree (R : List (Frame W) → List (Frame W) → Prop) (a e : State W) : Prop where
  shared : a.shared.SameBut d.invocation.receiver e.shared
  others : ∀ thread, thread ≠ d.thread → e.threads[thread]? = a.threads[thread]?
  caller : ∃ t stack, a.threads[d.thread]? = some t ∧
    e.threads[d.thread]? = some { t with stack } ∧ R t.stack stack

/-- A run in which the lane is left to the type, and one in which it is named, are alike. -/
structure Paired (log log' : List (Beat W)) (a e : State W) : Prop where
  agree : d.Agree (d.Matches type) a e
  /-- The same is told of them. -/
  told : told client log' = told client log
  /-- They are replied to in the same way. -/
  replies : ∀ reply, e.stackOf d.thread = d.replies reply ↔ a.stackOf d.thread = d.replies reply

/-- To leave the lane to the receiver's type comes to the same as to name it. -/
structure Chooses (s₀ : State W) : Prop where
  forth : ∀ log a, State.Log client s₀ log a → ∃ log' e,
    State.Log client (s₀.put d.thread (d.via (d.invocation.explicit type)).begun) log' e ∧
      d.Paired client type log log' a e
  back : ∀ log' e,
    State.Log client (s₀.put d.thread (d.via (d.invocation.explicit type)).begun) log' e →
      ∃ log a, State.Log client s₀ log a ∧ d.Paired client type log log' a e
  /-- The free lane is named just if type and method are isolated. -/
  isolated : d.invocation.explicit type = .concurrent ↔
    ∃ isolation, d.invocation.isolation type = .ok isolation ∧ isolation.typeIsolated = true ∧
      isolation.methodIsolated = true
  /-- A method that the type does not know runs on the receiver's lane. -/
  unknown : ∀ method, d.invocation.method = some method → type.method? method = none →
    d.invocation.explicit type = .sequential

variable {d client type} {a e a' e' : State W} {thread : ThreadId} {choice : Choice}
  {m n : Mode}

/-! ## What both threads hold on to -/

structure Akin (stack stack' : List (Frame W)) : Prop where
  isEmpty : stack'.isEmpty = stack.isEmpty
  objects : ∀ object, stack'.any (·.held.objects.contains object) =
    stack.any (·.held.objects.contains object)
  futures : ∀ future, stack'.any (·.held.futures.contains future) =
    stack.any (·.held.futures.contains future)

theorem akin_cons {frame frame' : Frame W} (rest : List (Frame W))
    (objects : ∀ object, frame'.held.objects.contains object = frame.held.objects.contains object)
    (futures : ∀ future, frame'.held.futures.contains future = frame.held.futures.contains future) :
    Akin (frame :: rest) (frame' :: rest) :=
  ⟨rfl, fun object => by rw [List.any_cons, List.any_cons, objects],
    fun future => by rw [List.any_cons, List.any_cons, futures]⟩

theorem Met.akin {stack stack' : List (Frame W)} (met : d.Met m n stack stack') :
    Akin stack stack' := by
  cases met with
  | same => exact ⟨rfl, fun _ => rfl, fun _ => rfl⟩
  | begun | asks | answers | opens => exact akin_cons _ (fun _ => rfl) fun _ => rfl

theorem Lags.akin {stack stack' : List (Frame W)} (lags : d.Lags type stack stack') :
    Akin stack stack' := by
  -- The receiver is held on to once more, by whom it is asked.
  have twice (call : OpenCall) (object : ObjectId) :
      call.held.objects.contains object =
        (Holding.ofObject call.receiver ++ call.held).objects.contains object := by
    simp [OpenCall.held, Holding.objects_append, Holding.ofObject]
  cases lags with
  | lane | decides => exact akin_cons _ (twice _) fun _ => rfl

namespace Agree

variable {R R' : List (Frame W) → List (Frame W) → Prop}

theorem mono (le : ∀ stack stack', R stack stack' → R' stack stack') (agree : d.Agree R a e) :
    d.Agree R' a e := by
  obtain ⟨shared, others, t, stack, found, found', related⟩ := agree
  exact ⟨shared, others, t, stack, found, found', le _ _ related⟩

theorem map_threads (agree : d.Agree R a e) {α : Type} (f : Thread W → α)
    (same : ∀ t stack, R t.stack stack → f { t with stack } = f t) :
    e.threads.map f = a.threads.map f := by
  obtain ⟨_, others, t, stack, found, found', related⟩ := agree
  refine List.ext_getElem? fun i => ?_
  rw [List.getElem?_map, List.getElem?_map]
  by_cases own : i = d.thread
  · rw [own, found, found', Option.map_some, Option.map_some, same t stack related]
  · rw [others i own]

theorem length_threads (agree : d.Agree R a e) : e.threads.length = a.threads.length := by
  have same := congrArg List.length (agree.map_threads (fun _ => ()) fun _ _ _ => rfl)
  rwa [List.length_map, List.length_map] at same

section Sights

variable (agree : d.Agree R a e) (akin : ∀ stack stack', R stack stack' → Akin stack stack')

include agree akin

theorem isDone_eq : e.isDone = a.isDone := by
  have same := agree.map_threads (fun t => t.stack.isEmpty) fun t stack related =>
    (akin _ _ related).isEmpty
  funext i
  have here := congrArg (·[i]?) same
  simp only [List.getElem?_map] at here
  unfold State.isDone
  cases found : a.threads[i]? with
  | none =>
    cases found' : e.threads[i]? with
    | none => rfl
    | some t' => rw [found, found'] at here; cases here
  | some t =>
    cases found' : e.threads[i]? with
    | none => rw [found, found'] at here; cases here
    | some t' =>
      rw [found, found'] at here
      exact Option.some.inj here

theorem any_holdings (test : Holding → Bool)
    (same : ∀ stack stack' : List (Frame W), Akin stack stack' →
      stack'.any (fun frame => test frame.held) = stack.any fun frame => test frame.held) :
    e.holdings.any test = a.holdings.any test := by
  have threads := agree.map_threads (fun t => t.stack.any fun frame => test frame.held)
    fun t stack related => same _ _ (akin _ _ related)
  have shared : e.shared.holdings = a.shared.holdings := by
    rw [← agree.shared.same]
    rfl
  have any (s : State W) : s.holdings.any test = (s.shared.holdings.any test ||
      (s.threads.map fun t => t.stack.any fun frame => test frame.held).any id) := by
    simp only [State.holdings, List.any_append, List.any_flatMap, List.any_map]
    rfl
  rw [any e, any a, shared, threads]

theorem mentions_eq : e.mentions = a.mentions := by
  have futures : e.shared.futures = a.shared.futures := by
    rw [← agree.shared.same]
    rfl
  funext future
  unfold State.mentions
  rw [agree.any_holdings akin _ fun stack stack' akin => akin.futures future, futures]

theorem isAlive_eq : e.isAlive = a.isAlive := by
  have futures : e.shared.futures = a.shared.futures := by
    rw [← agree.shared.same]
    rfl
  have holds : e.holds = a.holds := by
    funext future
    unfold State.holds
    rw [agree.mentions_eq akin, ← agree.shared.same]
    rfl
  funext object
  unfold State.isAlive
  rw [agree.any_holdings akin _ fun stack stack' akin => akin.objects object, futures, holds]

theorem sight_eq (worker : Bool) : e.sight thread worker = a.sight thread worker := by
  unfold State.sight
  rw [agree.isDone_eq akin, agree.isAlive_eq akin, agree.mentions_eq akin]

end Sights

/-! ## Steps of both -/

theorem advance_other (agree : d.Agree R a e) {p q : Progress W}
    (same : p.SameBut d.invocation.receiver q) (different : thread ≠ d.thread) :
    d.Agree R (a.advance thread p) (e.advance thread q) := by
  have length := agree.length_threads
  obtain ⟨_, others, t, stack, found, found', related⟩ := agree
  refine ⟨same.shared, fun i other => ?_, t, stack, ?_, ?_, related⟩
  · rw [State.getElem?_advance, State.getElem?_advance, length, others i other, same.frames,
      same.spawned]
  · have bound := (List.getElem?_eq_some_iff.1 found).1
    rw [State.getElem?_advance, if_pos bound, if_neg different, found]
  · have bound := (List.getElem?_eq_some_iff.1 found').1
    rw [State.getElem?_advance, if_pos bound, if_neg different, found']

theorem advance_caller (agree : d.Agree R a e) {p q : Progress W}
    (shared : p.shared.SameBut d.invocation.receiver q.shared) (spawned : q.spawned = p.spawned)
    (related : R' p.frames q.frames) :
    d.Agree R' (a.advance d.thread p) (e.advance d.thread q) := by
  have length := agree.length_threads
  obtain ⟨_, others, t, stack, found, found', _⟩ := agree
  refine ⟨shared, fun i other => ?_, { t with stack := p.frames }, q.frames, ?_, ?_, related⟩
  · rw [State.getElem?_advance, State.getElem?_advance, length, others i other, spawned,
      if_neg (Ne.symm other), if_neg (Ne.symm other)]
  · have bound := (List.getElem?_eq_some_iff.1 found).1
    rw [State.getElem?_advance, if_pos bound, if_pos rfl, found]
    rfl
  · have bound := (List.getElem?_eq_some_iff.1 found').1
    rw [State.getElem?_advance, if_pos bound, if_pos rfl, found']
    rfl

theorem advance_alone (agree : d.Agree R a e) {p : Progress W} {stack : List (Frame W)}
    (shared : p.shared.SameBut d.invocation.receiver e.shared) (none : p.spawned = [])
    (stands : e.stackOf d.thread = stack) (related : R' p.frames stack) :
    d.Agree R' (a.advance d.thread p) e := by
  obtain ⟨_, others, t, stack', found, found', _⟩ := agree
  obtain rfl : stack' = stack := (State.stackOf_of_found found').symm.trans stands
  refine ⟨shared, fun i other => ?_, { t with stack := p.frames }, stack', ?_, found', related⟩
  · rw [others i other, State.getElem?_advance, if_neg (Ne.symm other), none, List.map_nil,
      List.getElem?_nil]
    split
    · rfl
    · rename_i beyond
      exact List.getElem?_eq_none (Nat.le_of_not_lt beyond)
  · have bound := (List.getElem?_eq_some_iff.1 found).1
    rw [State.getElem?_advance, if_pos bound, if_pos rfl, found]
    rfl

theorem step_same (alike : ∀ r, d.invocation.receiver = some r →
      ∀ k l, client.consult r k = client.consult r l) (agree : d.Agree R a e)
    (akin : ∀ stack stack', R stack stack' → Akin stack stack') {t t' : Thread W}
    (found : a.threads[thread]? = some t) (found' : e.threads[thread]? = some t')
    (worker : t'.worker = t.worker) (stack : t'.stack = t.stack)
    (taken : a.step client thread choice = some a') :
    ∃ p q, p.SameBut d.invocation.receiver q ∧ a' = a.advance thread p ∧
      e.step client thread choice = some (e.advance thread q) ∧
      e.event client thread = a.event client thread := by
  unfold State.step at taken ⊢
  rw [found] at taken
  obtain ⟨p, stepped, rfl⟩ := Option.map_eq_some_iff.1 taken
  obtain ⟨q, stepped', same⟩ := stackStep_sameBut alike agree.shared stepped
  refine ⟨p, q, same, rfl, ?_, ?_⟩
  · rw [found']
    simp only [worker, stack, agree.sight_eq akin, stepped', Option.map_some]
  · unfold State.event
    rw [found, found']
    simp only [worker, stack]
    exact stackEvent_sameBut agree.shared _ _

theorem step_other (alike : ∀ r, d.invocation.receiver = some r →
      ∀ k l, client.consult r k = client.consult r l) (agree : d.Agree R a e)
    (akin : ∀ stack stack', R stack stack' → Akin stack stack') (different : thread ≠ d.thread)
    (taken : a.step client thread choice = some a') :
    ∃ e', e.step client thread choice = some e' ∧ d.Agree R a' e' ∧
      e.event client thread = a.event client thread := by
  obtain ⟨t, found⟩ : ∃ t, a.threads[thread]? = some t := by
    obtain ⟨acted⟩ := State.step_cases taken
    exact ⟨_, acted.actor_eq⟩
  obtain ⟨p, q, same, rfl, taken', told⟩ := agree.step_same alike akin found
    ((agree.others thread different).trans found) rfl rfl taken
  exact ⟨_, taken', agree.advance_other same different, told⟩

theorem step_caller (agree : d.Agree R a e) {frame frame' : Frame W} {rest rest' : List (Frame W)}
    {p q : Progress W} (stack : a.stackOf d.thread = frame :: rest)
    (stack' : e.stackOf d.thread = frame' :: rest')
    (moves : ∀ sight, frame.step client sight choice a.shared = some p)
    (moves' : ∀ sight, frame'.step client sight choice e.shared = some q)
    (notReply : ∀ reply, frame ≠ .deliver reply) (notReply' : ∀ reply, frame' ≠ .deliver reply)
    (shared : p.shared.SameBut d.invocation.receiver q.shared) (spawned : q.spawned = p.spawned)
    (related : R' (p.frames ++ rest) (q.frames ++ rest'))
    (told : ∀ worker worker', frame'.event client worker' e.shared rest' =
      frame.event client worker a.shared rest)
    (taken : a.step client d.thread choice = some a') :
    ∃ e', e.step client d.thread choice = some e' ∧ d.Agree R' a' e' ∧
      e.event client d.thread = a.event client d.thread := by
  obtain ⟨t, found, eq⟩ := State.exists_of_stackOf stack
  obtain ⟨t', found', eq'⟩ := State.exists_of_stackOf stack'
  have step := State.step_of_frame found eq notReply (moves _)
  have step' := State.step_of_frame found' eq' notReply' (moves' _)
  obtain rfl := Option.some.inj (step.symm.trans taken)
  obtain ⟨worker, _, _, _, _, event⟩ := State.own_event stack notReply step
  obtain ⟨worker', _, _, _, _, event'⟩ := State.own_event stack' notReply' step'
  refine ⟨_, step', agree.advance_caller shared spawned related, ?_⟩
  rw [event, event', told]

theorem step_alone (agree : d.Agree R a e) {frame : Frame W} {rest stack' : List (Frame W)}
    {p : Progress W} (stack : a.stackOf d.thread = frame :: rest)
    (stands : e.stackOf d.thread = stack')
    (moves : ∀ sight, frame.step client sight choice a.shared = some p)
    (notReply : ∀ reply, frame ≠ .deliver reply)
    (shared : p.shared.SameBut d.invocation.receiver e.shared) (none : p.spawned = [])
    (related : R' (p.frames ++ rest) stack')
    (silent : ∀ worker, frame.event client worker a.shared rest = .other) :
    ∃ a', a.step client d.thread choice = some a' ∧ d.Agree R' a' e ∧
      a.event client d.thread = .other := by
  obtain ⟨t, found, eq⟩ := State.exists_of_stackOf stack
  have step := State.step_of_frame found eq notReply (moves _)
  obtain ⟨worker, _, _, _, _, event⟩ := State.own_event stack notReply step
  exact ⟨_, step, agree.advance_alone (p := { p with frames := p.frames ++ rest }) shared none
    stands related, event.trans (silent worker)⟩

end Agree

/-! ## The call until it has its future -/

theorem Aims.receiver_eq {receiver : ObjectId} {method : String} (aims : d.Aims receiver method) :
    d.invocation.receiver = some receiver := (Invocation.complete_of_validate aims).1

theorem met_dispatch (rest : List (Frame W)) :
    d.Met m n (d.invocation.dispatch m d.callback ++ rest)
      (d.invocation.dispatch n d.callback ++ rest) := by
  unfold Invocation.dispatch
  cases receiver : d.invocation.receiver with
  | none => exact .same _
  | some object =>
    cases method : d.invocation.method with
    | none => exact .same _
    | some name =>
      have aims : d.Aims object name := by
        simp [Aims, Invocation.validate, receiver, method]
      let call : Call W :=
        { mode := m, receiver := object, method := name, invocation := d.invocation,
          callback := d.callback }
      cases d.invocation.metadata with
      | none => exact @Met.asks W d m n call _ aims
      | some metadata => exact @Met.opens W d m n call metadata _ aims

/-- At most steps the runs in two modes take the same one, unless the call is to get its
future. -/
theorem Agree.step (steady : ∀ r, d.invocation.receiver = some r → client.Steady r type)
    (agree : d.Agree (d.Met m n) a e) (taken : a.step client thread choice = some a') :
    (∃ e', e.step client thread choice = some e' ∧ d.Agree (d.Met m n) a' e' ∧
      e.event client thread = a.event client thread) ∨
    thread = d.thread ∧ ∃ (call : Call W) (metadata : Metadata) (rest : List (Frame W)),
      d.Aims call.receiver call.method ∧
      a.stackOf d.thread = .openCall (call.via m) metadata none :: rest ∧
      e.stackOf d.thread = .openCall (call.via n) metadata none :: rest := by
  have alike (r : ObjectId) (own : d.invocation.receiver = some r) (k l : Nat) :
      client.consult r k = client.consult r l := by
    obtain ⟨code, _, all⟩ := (steady r own).consult
    rw [all, all]
  have akin (stack stack' : List (Frame W)) (met : d.Met m n stack stack') := met.akin
  by_cases own : thread = d.thread
  · subst own
    obtain ⟨t, stack', found, found', met⟩ := agree.caller
    have stands := State.stackOf_of_found found
    have stands' := State.stackOf_of_found found'
    generalize stack : t.stack = frames at met
    rw [stack] at stands
    change e.stackOf d.thread = stack' at stands'
    cases met with
    | same =>
      refine .inl ?_
      obtain ⟨p, q, same, rfl, taken', told⟩ :=
        agree.step_same alike akin found found' rfl stack.symm taken
      refine ⟨_, taken', agree.advance_caller same.shared same.spawned ?_, told⟩
      rw [same.frames]
      exact .same _
    | begun =>
      refine .inl (agree.step_caller stands stands' (fun _ => rfl) (fun _ => rfl)
        (by rintro reply ⟨⟩) (by rintro reply ⟨⟩) agree.shared rfl ?_ (fun _ _ => rfl) taken)
      rw [List.append_assoc, List.append_assoc]
      exact met_dispatch _
    | @asks call rest aims =>
      refine .inl (agree.step_caller stands stands' (fun _ => rfl) (fun _ => rfl)
        (by rintro reply ⟨⟩) (by rintro reply ⟨⟩) ?_ rfl ?_ (fun _ _ => rfl) taken)
      · exact (queryStep_sameBut alike agree.shared call.receiver
          (.metadata (call.via m))).shared
      · obtain ⟨code, mute, all⟩ := (steady _ aims.receiver_eq).consult
        simp only [queryStep, all]
        exact .answers rest aims mute
    | @answers call code rest aims mute =>
      cases mute with
      | finish outcome =>
        refine .inl (agree.step_caller stands stands' (fun _ => rfl) (fun _ => rfl)
          (by rintro reply ⟨⟩) (by rintro reply ⟨⟩) agree.shared rfl ?_ (fun _ _ => rfl) taken)
        have typeOf := (steady _ aims.receiver_eq).typeOf
        simp only [Role.ended, Site.answered, typeOf]
        exact .opens _ rest aims
      | act same mute =>
        refine .inl (agree.step_caller stands stands' (fun _ => rfl) (fun _ => rfl)
          (by rintro reply ⟨⟩) (by rintro reply ⟨⟩) (agree.shared.act _) rfl ?_ (fun _ _ => rfl)
          taken)
        rw [agree.shared.world]
        exact .answers rest aims (mute _)
    | @opens call metadata rest aims =>
      exact .inr ⟨rfl, call, metadata, rest, aims, stands, stands'⟩
  · exact .inl (agree.step_other alike akin own taken)

/-! ## The choice of the lane -/

theorem openCallStep_explicit {call : Call W} (aims : d.Aims call.receiver call.method)
    (s : Shared W) (metadata : Metadata) :
    openCallStep s (call.via (d.invocation.explicit type)) metadata none =
      { shared := s.addFuture (call.invocation.spec metadata) (.client call.callback)
        frames := [.track (call.open metadata s.futures.nextId) (type.lane call.method),
          .deliver (.future s.futures.nextId)] } := by
  have valid : d.invocation.validate = .ok (call.receiver, call.method) := aims
  have isolation : d.invocation.isolation type = .ok (type.isolation call.method) := by
    rw [Invocation.isolation, valid]
    rfl
  unfold Invocation.explicit ObjectType.lane Isolation.lane
  rw [isolation]
  cases isolated : (type.isolation call.method).isIsolated <;>
    simp only [openCallStep, Call.via, isolated] <;> rfl

/-- The call gets its future in both runs, and its receiver is asked for the lane in one. -/
theorem Agree.opened {R : List (Frame W) → List (Frame W) → Prop} (agree : d.Agree R a e)
    {call : Call W} {metadata : Metadata} {rest : List (Frame W)}
    (aims : d.Aims call.receiver call.method)
    (stack : a.stackOf d.thread = .openCall (call.via .byIsolation) metadata none :: rest)
    (stack' : e.stackOf d.thread =
      .openCall (call.via (d.invocation.explicit type)) metadata none :: rest)
    (taken : a.step client d.thread choice = some a') :
    ∃ e', e.step client d.thread choice = some e' ∧ d.Agree (d.Lags type) a' e' ∧
      e.event client d.thread = a.event client d.thread := by
  have futures := agree.shared.futures
  refine agree.step_caller stack stack' (fun _ => rfl)
    (fun _ => congrArg some (openCallStep_explicit aims e.shared metadata))
    (by rintro reply ⟨⟩) (by rintro reply ⟨⟩) (agree.shared.addFuture _ _) rfl ?_
    (fun worker worker' => ?_) taken
  · rw [futures]
    exact @Lags.lane W d type (call.open metadata a.shared.futures.nextId) _ aims
  · simp only [Frame.event, futures]

def Deciding (type : ObjectType W) (call : OpenCall) (rest : List (Frame W)) (code : Code W)
    (stack stack' : List (Frame W)) : Prop :=
  stack = .running (.query call.receiver (.lane call)) code :: rest ∧
    stack' = .track call (type.lane call.method) :: rest

section Lagging

variable {call : OpenCall} {rest : List (Frame W)}
  (steady : ∀ r, d.invocation.receiver = some r → client.Steady r type)
  (aims : d.Aims call.receiver call.method)

include steady aims

variable (choice) in
theorem Agree.ask_lane {R : List (Frame W) → List (Frame W) → Prop} (agree : d.Agree R a e)
    (stack : a.stackOf d.thread = .query call.receiver (.lane call) :: rest)
    (stack' : e.stackOf d.thread = .track call (type.lane call.method) :: rest) :
    ∃ code : Code W, code.Mute ∧ ∃ a', a.step client d.thread choice = some a' ∧
      d.Agree (Deciding type call rest code) a' e ∧ a.event client d.thread = .other := by
  obtain ⟨code, mute, all⟩ := (steady _ aims.receiver_eq).consult
  have shared := agree.shared
  rw [aims.receiver_eq] at shared
  refine ⟨code, mute, agree.step_alone stack stack' (fun _ => rfl) (by rintro reply ⟨⟩) ?_ rfl
    ⟨?_, rfl⟩ fun _ => rfl⟩
  · rw [aims.receiver_eq]
    exact shared.ask
  · simp only [queryStep, all]
    rfl

variable (choice) in
theorem Agree.decide_finish {outcome : Outcome}
    (agree : d.Agree (Deciding type call rest (.finish outcome)) a e) :
    ∃ a', a.step client d.thread choice = some a' ∧ d.Agree (d.Met m n) a' e ∧
      a.event client d.thread = .other := by
  obtain ⟨t, stack', found, found', eq, rfl⟩ := agree.caller
  refine agree.step_alone ((State.stackOf_of_found found).trans eq)
    (State.stackOf_of_found found') (fun _ => rfl) (by rintro reply ⟨⟩) agree.shared rfl ?_
    fun _ => rfl
  have typeOf := (steady _ aims.receiver_eq).typeOf
  simp only [Role.ended, Site.answered, typeOf]
  exact .same _

omit steady aims in
variable (choice) in
theorem Agree.decide_act {update : W → W} {next : W → Code W}
    (same : ∀ world, update world = world)
    (agree : d.Agree (Deciding type call rest (.act update next)) a e) :
    ∃ a', a.step client d.thread choice = some a' ∧
      d.Agree (Deciding type call rest (next a.shared.world)) a' e ∧
      a.event client d.thread = .other := by
  obtain ⟨t, stack', found, found', eq, rfl⟩ := agree.caller
  refine agree.step_alone ((State.stackOf_of_found found).trans eq)
    (State.stackOf_of_found found') (fun _ => rfl) (by rintro reply ⟨⟩) ?_ rfl ⟨rfl, rfl⟩
    fun _ => rfl
  rw [same]
  exact agree.shared

/-- The receiver answers, and both runs go on with the same lane. -/
theorem Agree.decide {code : Code W} (mute : code.Mute)
    (agree : d.Agree (Deciding type call rest code) a e) :
    ∃ log a', State.Log client a log a' ∧ d.Agree (d.Met m n) a' e ∧ told client log = [] := by
  induction mute generalizing a with
  | finish outcome =>
    obtain ⟨a', taken, met, silent⟩ := agree.decide_finish {} steady aims
    exact ⟨[⟨a, d.thread⟩], a', .one taken, met, told_silent silent⟩
  | act same mute ih =>
    obtain ⟨a₁, taken, agree, silent⟩ := agree.decide_act {} same
    obtain ⟨log, a', run, met, nothing⟩ := ih _ agree
    refine ⟨[⟨a, d.thread⟩] ++ log, a', (State.Log.one taken).append run, met, ?_⟩
    rw [told_append, told_silent silent, nothing]
    rfl

end Lagging

theorem Agree.catchUp (steady : ∀ r, d.invocation.receiver = some r → client.Steady r type)
    (agree : d.Agree (d.Lags type) a e) :
    ∃ log a', State.Log client a log a' ∧ d.Agree (d.Met m n) a' e ∧ told client log = [] := by
  obtain ⟨t, stack', found, found', lags⟩ := agree.caller
  generalize stack : t.stack = frames at lags
  cases lags with
  | lane rest aims =>
    obtain ⟨code, mute, a₁, taken, deciding, silent⟩ := agree.ask_lane {} steady aims
      ((State.stackOf_of_found found).trans stack) (State.stackOf_of_found found')
    obtain ⟨log, a', run, met, nothing⟩ := deciding.decide steady aims mute
    refine ⟨[⟨a, d.thread⟩] ++ log, a', (State.Log.one taken).append run, met, ?_⟩
    rw [told_append, told_silent silent, nothing]
    rfl
  | @decides call code rest aims mute =>
    obtain ⟨shared, others, _⟩ := agree
    exact Agree.decide steady aims mute ⟨shared, others, t, _, found, found', stack, rfl⟩

/-- While the receiver is asked for the lane in one run, the other waits. -/
theorem Agree.lag (steady : ∀ r, d.invocation.receiver = some r → client.Steady r type)
    (agree : d.Agree (d.Lags type) a e) (taken : a.step client d.thread choice = some a') :
    d.Agree (d.Matches type) a' e ∧ a.event client d.thread = .other := by
  obtain ⟨t, stack', found, found', lags⟩ := agree.caller
  have stands := State.stackOf_of_found found
  have stands' := State.stackOf_of_found found'
  generalize stack : t.stack = frames at lags
  cases lags with
  | lane rest aims =>
    obtain ⟨code, mute, a₁, taken', deciding, silent⟩ :=
      agree.ask_lane choice steady aims (stands.trans stack) stands'
    obtain rfl := Option.some.inj (taken'.symm.trans taken)
    refine ⟨deciding.mono ?_, silent⟩
    rintro _ _ ⟨rfl, rfl⟩
    exact .inr (.decides rest aims mute)
  | @decides call code rest aims mute =>
    have deciding : d.Agree (Deciding type call rest code) a e := by
      obtain ⟨shared, others, _⟩ := agree
      exact ⟨shared, others, t, _, found, found', stack, rfl⟩
    cases mute with
    | finish outcome =>
      obtain ⟨a₁, taken', met, silent⟩ : ∃ a₁, a.step client d.thread choice = some a₁ ∧
          d.Agree (d.Met .byIsolation (d.invocation.explicit type)) a₁ e ∧ _ :=
        deciding.decide_finish choice steady aims
      obtain rfl := Option.some.inj (taken'.symm.trans taken)
      exact ⟨met.mono fun _ _ => .inl, silent⟩
    | act same mute =>
      obtain ⟨a₁, taken', deciding, silent⟩ := deciding.decide_act choice same
      obtain rfl := Option.some.inj (taken'.symm.trans taken)
      refine ⟨deciding.mono ?_, silent⟩
      rintro _ _ ⟨rfl, rfl⟩
      exact .inr (.decides rest aims (mute _))

/-! ## Runs of both -/

theorem Agree.split {R R' : List (Frame W) → List (Frame W) → Prop}
    (agree : d.Agree (fun stack stack' => R stack stack' ∨ R' stack stack') a e) :
    d.Agree R a e ∨ d.Agree R' a e := by
  obtain ⟨shared, others, t, stack, found, found', here | here⟩ := agree
  · exact .inl ⟨shared, others, t, stack, found, found', here⟩
  · exact .inr ⟨shared, others, t, stack, found, found', here⟩

theorem Met.symm {stack stack' : List (Frame W)} (met : d.Met m n stack stack') :
    d.Met n m stack' stack := by
  cases met with
  | same => exact .same _
  | begun => exact .begun
  | asks rest aims => exact .asks rest aims
  | answers rest aims mute => exact .answers rest aims mute
  | opens metadata rest aims => exact .opens metadata rest aims

theorem Agree.symm (agree : d.Agree (d.Met m n) a e) : d.Agree (d.Met n m) e a := by
  obtain ⟨shared, others, t, stack, found, found', met⟩ := agree
  exact ⟨shared.symm, fun i other => (others i other).symm, _, t.stack, found', found, met.symm⟩

section Runs

variable (steady : ∀ r, d.invocation.receiver = some r → client.Steady r type)

include steady

theorem alike_of_steady (r : ObjectId) (own : d.invocation.receiver = some r) (k l : Nat) :
    client.consult r k = client.consult r l := by
  obtain ⟨code, _, all⟩ := (steady r own).consult
  rw [all, all]

theorem Agree.forth (agree : d.Agree (d.Matches type) a e)
    (taken : a.step client thread choice = some a') :
    ∃ log e', State.Log client e log e' ∧ d.Agree (d.Matches type) a' e' ∧
      told client log = told client [⟨a, thread⟩] := by
  rcases agree.split with met | lags
  · rcases met.step steady taken with
      ⟨e', taken', met', event⟩ | ⟨rfl, call, metadata, rest, aims, stack, stack'⟩
    · exact ⟨_, e', .one taken', met'.mono fun _ _ => .inl, told_eq_of_event event⟩
    · obtain ⟨e', taken', lags, event⟩ := met.opened aims stack stack' taken
      exact ⟨_, e', .one taken', lags.mono fun _ _ => .inr, told_eq_of_event event⟩
  · by_cases own : thread = d.thread
    · subst own
      obtain ⟨matched, silent⟩ := lags.lag steady taken
      exact ⟨[], e, .start, matched, (told_silent silent).symm⟩
    · obtain ⟨e', taken', lags', event⟩ := lags.step_other (alike_of_steady steady)
        (fun _ _ lags => lags.akin) own taken
      exact ⟨_, e', .one taken', lags'.mono fun _ _ => .inr, told_eq_of_event event⟩

/-- A step of the run that names the lane is one of the other run, which then has the receiver
asked for the lane. -/
theorem Agree.back (agree : d.Agree (d.Met .byIsolation (d.invocation.explicit type)) a e)
    (taken : e.step client thread choice = some e') :
    ∃ log a', State.Log client a log a' ∧
      d.Agree (d.Met .byIsolation (d.invocation.explicit type)) a' e' ∧
      told client log = told client [⟨e, thread⟩] := by
  rcases agree.symm.step steady taken with
    ⟨a', taken', met, event⟩ | ⟨rfl, call, metadata, rest, aims, stack', stack⟩
  · exact ⟨_, a', .one taken', met.symm, told_eq_of_event event⟩
  · obtain ⟨a₁, opens⟩ : ∃ a₁, a.step client d.thread choice = some a₁ :=
      State.exists_step stack (by rintro reply ⟨⟩) fun _ => ⟨_, rfl⟩
    obtain ⟨e₁, opens', lags, event⟩ := agree.opened aims stack stack' opens
    obtain rfl := Option.some.inj (opens'.symm.trans taken)
    obtain ⟨log, a', run, met, nothing⟩ := lags.catchUp steady
    refine ⟨[⟨a, d.thread⟩] ++ log, a', (State.Log.one opens).append run, met, ?_⟩
    rw [told_append, nothing, List.append_nil]
    exact told_eq_of_event event.symm

variable {s₀ : State W} {log : List (Beat W)}

theorem forth_run (agree : d.Agree (d.Matches type) s₀ e) (run : State.Log client s₀ log a) :
    ∃ log' e', State.Log client e log' e' ∧ d.Agree (d.Matches type) a e' ∧
      told client log' = told client log := by
  induction run with
  | start => exact ⟨[], e, .start, agree, rfl⟩
  | @step log a a' thread choice run taken ih =>
    obtain ⟨log', e', run', agree', same⟩ := ih
    obtain ⟨last, e'', run'', agree'', told⟩ := agree'.forth steady taken
    refine ⟨log' ++ last, e'', run'.append run'', agree'', ?_⟩
    rw [told_append, told_append, same, told]

theorem back_run (agree : d.Agree (d.Met .byIsolation (d.invocation.explicit type)) a s₀)
    (run : State.Log client s₀ log e) :
    ∃ log' a', State.Log client a log' a' ∧
      d.Agree (d.Met .byIsolation (d.invocation.explicit type)) a' e ∧
      told client log' = told client log := by
  induction run with
  | start => exact ⟨[], a, .start, agree, rfl⟩
  | @step log e e' thread choice run taken ih =>
    obtain ⟨log', a', run', agree', same⟩ := ih
    obtain ⟨last, a'', run'', agree'', told⟩ := agree'.back steady taken
    refine ⟨log' ++ last, a'', run'.append run'', agree'', ?_⟩
    rw [told_append, told_append, same, told]

end Runs

theorem agree_put {s₀ : State W} (called : s₀.stackOf d.thread = (d.via m).begun) :
    d.Agree (d.Met m n) s₀ (s₀.put d.thread (d.via n).begun) := by
  obtain ⟨t, found, stack⟩ := State.exists_of_stackOf called
  refine ⟨.refl _, fun i other => ?_, t, (d.via n).begun, found, ?_, ?_⟩
  · simp [State.put, Ne.symm other]
  · simp [State.put, found]
  · rw [stack]
    exact .begun

theorem replies_iff {stack stack' : List (Frame W)} (matched : d.Matches type stack stack')
    (reply : Reply) : stack' = d.replies reply ↔ stack = d.replies reply := by
  rcases matched with met | lags
  · cases met with
    | same => exact Iff.rfl
    | begun | asks | answers | opens => exact ⟨by rintro ⟨⟩, by rintro ⟨⟩⟩
  · cases lags with
    | lane | decides => exact ⟨by rintro ⟨⟩, by rintro ⟨⟩⟩

theorem Agree.paired {log log' : List (Beat W)} (agree : d.Agree (d.Matches type) a e)
    (same : told client log' = told client log) : d.Paired client type log log' a e := by
  refine ⟨agree, same, fun reply => ?_⟩
  obtain ⟨t, stack, found, found', matched⟩ := agree.caller
  rw [State.stackOf_of_found found, State.stackOf_of_found found']
  exact replies_iff matched reply

/-- Whether the lane is left to the receiver's type or named makes no difference. -/
theorem chooses (steady : ∀ r, d.invocation.receiver = some r → client.Steady r type)
    {s₀ : State W} (called : s₀.stackOf d.thread = (d.via .byIsolation).begun) :
    d.Chooses client type s₀ where
  forth log a run := by
    obtain ⟨log', e, run', agree, same⟩ :=
      forth_run steady ((agree_put called).mono fun _ _ => .inl) run
    exact ⟨log', e, run', agree.paired same⟩
  back log' e run' := by
    obtain ⟨log, a, run, agree, same⟩ := back_run steady (agree_put called) run'
    exact ⟨log, a, run, (agree.mono fun _ _ => .inl).paired same.symm⟩
  isolated := Invocation.explicit_eq_concurrent_iff
  unknown _ := Invocation.explicit_of_unknown

end Invoking

namespace State

/-! ## A call that is not isolated -/

/-- A client leaves the lane to the receiver's type, which is not isolated. -/
def leftStart : State Unit :=
  State.start 1 () [1] [.invoke .byIsolation { receiver := some 1, method := some "m" }
    (fun _ => Sample.done) fun _ => Sample.done]

def leftInvoking : Invoking Unit where
  thread := 1
  role := .thread
  mode := .byIsolation
  invocation := { receiver := some 1, method := some "m" }
  callback _ := Sample.done
  next _ := Sample.done
  below := []

/-- It might as well have named the receiver's group lane. -/
theorem chooses_leftInvoking :
    leftInvoking.Chooses (Sample.client Sample.value) ((Sample.client Sample.value).typeOf 1 ())
      leftStart ∧
    leftInvoking.invocation.explicit ((Sample.client Sample.value).typeOf 1 ()) = .sequential :=
  ⟨Invoking.chooses (fun _ _ => ⟨⟨_, .finish _, fun _ => rfl⟩, fun _ => rfl⟩) rfl, rfl⟩

end State
end Strands
