/-
The arity check.

A request for complete arguments asks the receiver for its type and compares the arguments
with the method's signature.  `Resolve.Answered` says what comes of that: the continuation is
handed the error or the arguments at once and once, and until it runs nothing was done but to
ask the receiver (`Resolve.Underway.resolved`).  Only where every parameter that is left out
has a default is it not handed anything yet.
-/
import Strands.Proofs.Hosted
import Strands.Proofs.Pipeline

namespace Strands

variable {W : Type}

/-! ## Signatures -/

namespace Method

/-- More arguments are given than the method takes. -/
def Exceeded (m : Method W) (given : Nat) : Prop := m.params.length < given ∧ m.rest = false

/-- The first of the parameters left out that has no default. -/
def Lacks (m : Method W) (given : Nat) (p : Param W) : Prop :=
  p.default = none ∧ ∃ before after, m.params.drop given = before ++ p :: after ∧
    ∀ q ∈ before, q.default ≠ none

/-- All parameters left out have defaults. -/
def Fillable (m : Method W) (given : Nat) : Prop := ∀ p ∈ m.params.drop given, p.default ≠ none

theorem lacks_or_fillable (m : Method W) (given : Nat) :
    (∃ p, m.Lacks given p) ∨ m.Fillable given := by
  unfold Lacks Fillable
  induction m.params.drop given with
  | nil => exact .inr (by rintro p ⟨⟩)
  | cons q params ih =>
    cases default : q.default with
    | none => exact .inl ⟨q, default, [], params, rfl, by rintro p ⟨⟩⟩
    | some expression =>
      have own : q.default ≠ none := by simp [default]
      rcases ih with ⟨p, none, before, after, rfl, others⟩ | others
      · exact .inl ⟨p, none, q :: before, after, rfl, List.forall_mem_cons.2 ⟨own, others⟩⟩
      · exact .inr (List.forall_mem_cons.2 ⟨own, others⟩)

end Method

def Omitted.declared (omitted : Omitted W) : Param W where
  name := omitted.param
  default := some omitted.expression

namespace ObjectType

variable {t : ObjectType W} {name : String} {given : Nat} {m : Method W}

theorem fill_of_lacks {before after : List (Param W)} {p : Param W} (none : p.default = none)
    (some : ∀ q ∈ before, q.default ≠ Option.none) :
    t.fill name (before ++ p :: after) = .error (t.missing name p.name) := by
  induction before with
  | nil => simp [fill, none]
  | cons q before ih =>
    obtain ⟨own, others⟩ := List.forall_mem_cons.1 some
    obtain ⟨expression, default⟩ := Option.ne_none_iff_exists'.1 own
    simp only [List.cons_append, fill, default, ih others]

theorem fill_of_fillable {params : List (Param W)} (some : ∀ p ∈ params, p.default ≠ none) :
    ∃ pending, t.fill name params = .ok pending ∧ pending.map Omitted.declared = params := by
  induction params with
  | nil => exact ⟨[], rfl, rfl⟩
  | cons p params ih =>
    obtain ⟨own, others⟩ := List.forall_mem_cons.1 some
    obtain ⟨expression, default⟩ := Option.ne_none_iff_exists'.1 own
    obtain ⟨pending, filled, declared⟩ := ih others
    refine ⟨⟨p.name, expression⟩ :: pending, by simp only [fill, default, filled], ?_⟩
    rw [List.map_cons, declared, Omitted.declared, ← default]

theorem omitted_of_unknown (unknown : t.method? name = none) : t.omitted name given = .ok [] := by
  rw [omitted, unknown]

theorem omitted_of_exceeded (known : t.method? name = some m) (exceeded : m.Exceeded given) :
    t.omitted name given = .error (t.tooMany name m.params.length given) := by
  simp only [omitted, known]
  exact if_pos exceeded

theorem omitted_eq_fill (known : t.method? name = some m) (fits : ¬ m.Exceeded given) :
    t.omitted name given = t.fill name (m.params.drop given) := by
  simp only [omitted, known]
  exact if_neg fits

theorem omitted_of_lacks {p : Param W} (known : t.method? name = some m)
    (fits : ¬ m.Exceeded given) (lacks : m.Lacks given p) :
    t.omitted name given = .error (t.missing name p.name) := by
  obtain ⟨none, before, after, left, some⟩ := lacks
  rw [omitted_eq_fill known fits, left, fill_of_lacks none some]

theorem omitted_of_fillable (known : t.method? name = some m) (fits : ¬ m.Exceeded given)
    (fillable : m.Fillable given) :
    ∃ pending, t.omitted name given = .ok pending ∧
      pending.map Omitted.declared = m.params.drop given := by
  rw [omitted_eq_fill known fits]
  exact fill_of_fillable fillable

/-- The arity check fails just on too many arguments, or else on the first parameter that is
left out without a default. -/
theorem omitted_eq_error {e : DomainError} : t.omitted name given = .error e ↔
    ∃ m, t.method? name = some m ∧
      (m.Exceeded given ∧ e = t.tooMany name m.params.length given ∨
        ¬ m.Exceeded given ∧ ∃ p, m.Lacks given p ∧ e = t.missing name p.name) := by
  constructor
  · intro found
    cases known : t.method? name with
    | none =>
      rw [omitted_of_unknown known] at found
      cases found
    | some m =>
      refine ⟨m, rfl, ?_⟩
      by_cases exceeded : m.Exceeded given
      · rw [omitted_of_exceeded known exceeded] at found
        cases found
        exact .inl ⟨exceeded, rfl⟩
      · refine .inr ⟨exceeded, ?_⟩
        rcases m.lacks_or_fillable given with ⟨p, lacks⟩ | fillable
        · rw [omitted_of_lacks known exceeded lacks] at found
          cases found
          exact ⟨p, lacks, rfl⟩
        · obtain ⟨pending, filled, _⟩ := omitted_of_fillable known exceeded fillable
          rw [filled] at found
          cases found
  · rintro ⟨m, known, ⟨exceeded, rfl⟩ | ⟨fits, p, lacks, rfl⟩⟩
    · exact omitted_of_exceeded known exceeded
    · exact omitted_of_lacks known fits lacks

end ObjectType

/-! ## Requests for complete arguments -/

/-- What a request is answered with whose continuation has come to its end. -/
def Reply.ofEnd : Except Panic Outcome → Reply
  | .ok _ => .done
  | .error panic => .panicked panic

/-- A request for complete arguments that a thread is about to make, and what the thread has
left to do then. -/
structure Resolve (W : Type) where
  thread : ThreadId
  role : Role W
  receiver : ObjectId
  method : String
  args : List Value
  parent : Option Strand
  continuation : Except DomainError (List Value) → Code W
  next : Reply → Code W
  below : List (Frame W)

namespace Resolve

variable (d : Resolve W)

def lookup : Lookup W where
  receiver := d.receiver
  method := d.method
  args := d.args
  parent := d.parent
  next := .client d.continuation

def begun : List (Frame W) :=
  .running d.role (.resolve d.receiver d.method d.args d.parent d.continuation d.next) :: d.below

def waits : List (Frame W) := .waiting d.role d.next :: d.below

def base : List (Frame W) := .letGo (.ofObject d.receiver ++ .ofParent d.parent) :: d.waits

def replies (reply : Reply) : List (Frame W) := .deliver reply :: d.waits

def passes (reply : Reply) (held : List Holding) : List (Frame W) :=
  .deliver reply :: (held.map .letGo ++ d.waits)

/-- What was held on to for a request whose continuation is handed a result. -/
def holdings : Except DomainError (List Value) → List Holding
  | .error _ => [.ofValues [], .ofValues d.args, .ofObject d.receiver ++ .ofParent d.parent]
  | .ok args => [.ofValues args, .ofObject d.receiver ++ .ofParent d.parent]

/-- The continuation is handed a result. -/
def hands (result : Except DomainError (List Value)) : List (Frame W) :=
  .running .continuation (d.continuation result) :: ((d.holdings result).map .letGo ++ d.waits)

/-- The receiver has the thread, to say what its type is. -/
def Answers (client : Client W) (ended : Option (Except Panic Outcome)) (stack : List (Frame W)) :
    Prop :=
  ∃ n, Hosted (.query d.receiver (.omitted d.lookup)) (client.consult d.receiver n) d.base ended
    stack

/-- The continuation has the thread. -/
abbrev Lends (result : Except DomainError (List Value)) (ended : Option (Except Panic Outcome)) :
    List (Frame W) → Prop :=
  Hosted .continuation (d.continuation result) ((d.holdings result).map .letGo ++ d.waits) ended

/-- Nothing has been done but to ask the receiver, and what that does itself. -/
def Quiet (client : Client W) (log : List (Beat W)) : Prop :=
  ∀ beat ∈ log, beat.thread = d.thread → d.Answers client none (beat.s.stackOf d.thread) ∨
    ∀ choice s', beat.s.step client d.thread choice = some s' →
      beat.s.Leaves s' d.thread { beat.s.shared with queries := s'.shared.queries }

/-- The thread is with the continuation, or with a reply. -/
def Once (result : Except DomainError (List Value)) (log : List (Beat W)) : Prop :=
  ∀ beat ∈ log, beat.thread = d.thread →
    (∃ ended, d.Lends result ended (beat.s.stackOf d.thread)) ∨
      ∃ reply held, beat.s.stackOf d.thread = d.passes reply held

/-- The continuation was handed a result. -/
structure Handed (client : Client W) (result : Except DomainError (List Value))
    (here next : State W) (rest : List (Beat W)) (s : State W) : Prop where
  /-- It runs at once. -/
  begins : next.stackOf d.thread = d.hands result
  untouched : here.Untouched next d.thread
  /-- It is not run again. -/
  once : d.Once result rest
  stays : d.waits <:+ s.stackOf d.thread
  goes : ∀ choice, (∃ s', s.step client d.thread choice = some s') ∨
    d.Lends result none (s.stackOf d.thread)
  /-- It has come to its end when the request is answered. -/
  answers : ∀ reply, s.stackOf d.thread = d.replies reply →
    ∃ beat ∈ rest, ∃ ended, beat.thread = d.thread ∧
      d.Lends result (some ended) (beat.s.stackOf d.thread) ∧ reply = .ofEnd ended

structure Answered (client : Client W) (t : ObjectType W) (here next : State W)
    (rest : List (Beat W)) (s : State W) : Prop where
  /-- An error is found just if too many arguments are given, or else some parameter is left out
  that has no default. The first of these is named. -/
  exact : ∀ e, t.omitted d.method d.args.length = .error e ↔
    ∃ m, t.method? d.method = some m ∧
      (m.Exceeded d.args.length ∧ e = t.tooMany d.method m.params.length d.args.length ∨
        ¬ m.Exceeded d.args.length ∧ ∃ p, m.Lacks d.args.length p ∧
          e = t.missing d.method p.name)
  unfit : ∀ e, t.omitted d.method d.args.length = .error e →
    d.Handed client (.error e) here next rest s
  unknown : t.method? d.method = none → d.Handed client (.ok d.args) here next rest s
  /-- No argument is left out, and all that are given are handed over. -/
  complete : ∀ m, t.method? d.method = some m → ¬ m.Exceeded d.args.length →
    m.params.length ≤ d.args.length → d.Handed client (.ok d.args) here next rest s
  /-- What is left out has defaults, all of which are to be computed first. -/
  fillable : ∀ m, t.method? d.method = some m → ¬ m.Exceeded d.args.length →
    d.args.length < m.params.length → m.Fillable d.args.length →
    ∃ pending, pending.map Omitted.declared = m.params.drop d.args.length ∧
      next.stackOf d.thread = .query d.receiver (.expressions d.lookup pending) :: d.base

structure Underway (client : Client W) (s₀ : State W) (during : List (Beat W)) (s : State W) :
    Prop where
  called : s₀.stackOf d.thread = d.begun
  going : State.Log client s₀ during s
  unreplied : ∀ beat ∈ during, beat.thread = d.thread →
    ∀ reply, beat.s.stackOf d.thread ≠ d.replies reply

variable {d} {client : Client W} {s₀ s s' : State W} {during log : List (Beat W)}
  {choice : Choice} {result : Except DomainError (List Value)}

/-! ## Until the receiver has answered -/

theorem Quiet.snoc (quiet : d.Quiet client log) {beat : Beat W}
    (last : beat.thread = d.thread → d.Answers client none (beat.s.stackOf d.thread) ∨
      ∀ choice s', beat.s.step client d.thread choice = some s' →
        beat.s.Leaves s' d.thread { beat.s.shared with queries := s'.shared.queries }) :
    d.Quiet client (log ++ [beat]) := by
  intro other mem
  rcases List.mem_append.1 mem with earlier | now
  · exact quiet other earlier
  · rw [List.mem_singleton.1 now]
    exact last

variable (d client) in
/-- What the thread may have left to do until the receiver has answered. -/
inductive Asking : List (Frame W) → Prop
  | begun : Asking d.begun
  | asks : Asking (.query d.receiver (.omitted d.lookup) :: d.base)
  | answers {stack : List (Frame W)} (ended : Option (Except Panic Outcome)) :
      d.Answers client ended stack → Asking stack
  | panics (n : Nat) (panic : Panic) (held : List Holding) :
      (client.consult d.receiver n).CanEnd (.error panic) → Asking (d.passes (.panicked panic) held)

theorem Asking.ne_nil {stack : List (Frame W)} (asking : d.Asking client stack) : stack ≠ [] := by
  cases asking with
  | answers ended answers =>
    obtain ⟨n, hosted⟩ := answers
    obtain ⟨frame, below, rfl⟩ := hosted.exists_cons
    simp
  | _ => simp [Resolve.begun, passes]

/-- A reply goes on past what was held on to. -/
theorem pass_step {reply : Reply} {held : List Holding}
    (stack : s.stackOf d.thread = d.passes reply held)
    (unreplied : ∀ reply, s.stackOf d.thread ≠ d.replies reply)
    (taken : s.step client d.thread choice = some s') :
    ∃ held', s'.stackOf d.thread = d.passes reply held' ∧ s.Untouched s' d.thread := by
  cases held with
  | nil => exact absurd stack (unreplied reply)
  | cons first held => exact ⟨held, State.leaves_of_pass stack taken⟩

variable (client choice) in
theorem can_pass {reply : Reply} {held : List Holding}
    (stack : s.stackOf d.thread = d.passes reply held) :
    ∃ s', s.step client d.thread choice = some s' := by
  cases held with
  | nil =>
    obtain ⟨s', taken, _⟩ : ∃ s', s.step client d.thread choice = some s' ∧ _ :=
      State.can_receive stack
    exact ⟨s', taken⟩
  | cons first held =>
    obtain ⟨s', taken, _⟩ : ∃ s', s.step client d.thread choice = some s' ∧ _ :=
      State.can_pass stack
    exact ⟨s', taken⟩

theorem answers_step {ended : Except Panic Outcome}
    (answers : d.Answers client (some ended) (s.stackOf d.thread))
    (taken : s.step client d.thread choice = some s') :
    s.Untouched s' d.thread ∧ s'.stackOf d.thread =
      (Role.ended client s.shared ended (.query d.receiver (.omitted d.lookup))).frames ++
        d.base := by
  obtain ⟨n, hosted⟩ := answers
  have step sight : (Frame.running (.query d.receiver (.omitted d.lookup))
      (Code.ending ended)).step client sight choice s.shared =
        some { shared := s.shared, frames := (Role.ended client s.shared ended
          (.query d.receiver (.omitted d.lookup))).frames } := by
    cases ended <;> rfl
  obtain ⟨after, untouched⟩ :=
    State.leaves_of_frame hosted.ending.2 (by rintro reply ⟨⟩) step taken
  exact ⟨untouched, after⟩

/-- What the thread does until the receiver has answered changes nothing but that the receiver
was asked. -/
theorem Asking.quiet (asking : d.Asking client (s.stackOf d.thread))
    (unreplied : ∀ reply, s.stackOf d.thread ≠ d.replies reply) :
    d.Answers client none (s.stackOf d.thread) ∨
      ∀ choice s', s.step client d.thread choice = some s' →
        s.Leaves s' d.thread { s.shared with queries := s'.shared.queries } := by
  have ofUntouched {s' : State W} (untouched : s.Untouched s' d.thread) :
      s.Leaves s' d.thread { s.shared with queries := s'.shared.queries } := by
    refine ⟨?_, untouched.2⟩
    rw [untouched.1]
  generalize stack : s.stackOf d.thread = frames at asking
  cases asking with
  | begun =>
    refine .inr fun choice s' taken => ofUntouched ?_
    exact (State.leaves_of_frame stack (by rintro reply ⟨⟩) (fun _ => rfl) taken).2
  | asks =>
    refine .inr fun choice s' taken => ?_
    have leaves := (State.leaves_of_frame stack (by rintro reply ⟨⟩) (fun _ => rfl) taken).2
    refine ⟨?_, leaves.2⟩
    rw [leaves.1]
  | answers ended answers =>
    cases ended with
    | none => exact .inl answers
    | some result =>
      exact .inr fun choice s' taken => ofUntouched (answers_step (stack ▸ answers) taken).1
  | panics n panic held ends =>
    refine .inr fun choice s' taken => ofUntouched ?_
    obtain ⟨held', _, untouched⟩ := pass_step stack unreplied taken
    exact untouched

/-- Until the receiver has answered, a step of the thread leads on to the answer. -/
theorem Asking.step (asking : d.Asking client (s.stackOf d.thread))
    (unreplied : ∀ reply, s.stackOf d.thread ≠ d.replies reply)
    (taken : s.step client d.thread choice = some s') :
    d.Asking client (s'.stackOf d.thread) ∨
      ∃ outcome, d.Answers client (some (.ok outcome)) (s.stackOf d.thread) := by
  generalize stack : s.stackOf d.thread = frames at asking
  cases asking with
  | begun =>
    refine .inl ?_
    rw [(State.leaves_of_frame stack (by rintro reply ⟨⟩) (fun _ => rfl) taken).1]
    exact .asks
  | asks =>
    refine .inl ?_
    rw [(State.leaves_of_frame stack (by rintro reply ⟨⟩) (fun _ => rfl) taken).1]
    exact .answers _ ⟨_, Hosted.begins⟩
  | answers ended answers =>
    rw [← stack] at answers
    cases ended with
    | none =>
      obtain ⟨n, hosted⟩ := answers
      obtain ⟨ended, hosted⟩ := State.hosted_step hosted taken
      exact .inl (.answers ended ⟨n, hosted⟩)
    | some result =>
      cases result with
      | ok outcome => exact .inr ⟨outcome, stack ▸ answers⟩
      | error panic =>
        refine .inl ?_
        rw [(answers_step answers taken).2]
        obtain ⟨n, hosted⟩ := answers
        exact .panics n panic [_] hosted.ending.1
  | panics n panic held ends =>
    obtain ⟨held', after, _⟩ := pass_step stack unreplied taken
    rw [after]
    exact .inl (.panics n panic held' ends)

/-! ## Once the receiver has answered -/

variable (d) in
/-- What the continuation is handed at once, given the receiver's type. -/
inductive Verdict (t : ObjectType W) : Except DomainError (List Value) → Prop
  | fails (e : DomainError) : t.omitted d.method d.args.length = .error e → Verdict t (.error e)
  | complete : t.omitted d.method d.args.length = .ok [] → Verdict t (.ok d.args)

theorem hands_of_verdict {outcome : Outcome}
    (answers : d.Answers client (some (.ok outcome)) (s.stackOf d.thread))
    (verdict : d.Verdict (client.typeOf d.receiver s.shared.world) result)
    (taken : s.step client d.thread choice = some s') :
    s'.stackOf d.thread = d.hands result := by
  rw [(answers_step answers taken).2]
  cases verdict with
  | fails e found =>
    simp only [Role.ended, Site.answered, lookup, found]
    rfl
  | complete found =>
    simp only [Role.ended, Site.answered, lookup, found]
    rfl

variable (d) in
/-- What the thread may have left to do once the continuation was handed a result. -/
inductive Handing (result : Except DomainError (List Value)) (rest : List (Beat W)) :
    List (Frame W) → Prop
  | lends {stack : List (Frame W)} (ended : Option (Except Panic Outcome)) :
      d.Lends result ended stack → Handing result rest stack
  | passes {beat : Beat W} {ended : Except Panic Outcome} (held : List Holding) : beat ∈ rest →
      beat.thread = d.thread → d.Lends result (some ended) (beat.s.stackOf d.thread) →
      Handing result rest (d.passes (.ofEnd ended) held)

theorem Handing.mono {stack : List (Frame W)} (handing : d.Handing result log stack)
    (later : List (Beat W)) : d.Handing result (log ++ later) stack := by
  cases handing with
  | lends ended lends => exact .lends ended lends
  | passes held mem own lends => exact .passes held (List.mem_append_left _ mem) own lends

theorem Handing.step (handing : d.Handing result log (s.stackOf d.thread))
    (unreplied : ∀ reply, s.stackOf d.thread ≠ d.replies reply)
    (taken : s.step client d.thread choice = some s') :
    d.Handing result (log ++ [⟨s, d.thread⟩]) (s'.stackOf d.thread) := by
  generalize stack : s.stackOf d.thread = frames at handing
  cases handing with
  | lends ended lends =>
    rw [← stack] at lends
    cases ended with
    | none =>
      obtain ⟨ended, lends⟩ := State.hosted_step lends taken
      exact .lends ended lends
    | some ended =>
      rw [(State.ending_step lends taken).2]
      have last : (⟨s, d.thread⟩ : Beat W) ∈ log ++ [⟨s, d.thread⟩] := by simp
      cases ended with
      | ok outcome => exact .passes (d.holdings result) last rfl lends
      | error panic => exact .passes (d.holdings result) last rfl lends
  | passes held mem own lends =>
    obtain ⟨held', after, _⟩ := pass_step stack unreplied taken
    rw [after]
    exact .passes held' (List.mem_append_left _ mem) own lends

theorem Once.snoc (once : d.Once result log) {beat : Beat W}
    (last : beat.thread = d.thread → d.Handing result log (beat.s.stackOf d.thread)) :
    d.Once result (log ++ [beat]) := by
  intro other mem own
  rcases List.mem_append.1 mem with earlier | now
  · exact once other earlier own
  · obtain rfl := List.mem_singleton.1 now
    have handing := last own
    generalize other.s.stackOf d.thread = stack at handing
    cases handing with
    | lends ended lends => exact .inl ⟨ended, lends⟩
    | passes held => exact .inr ⟨_, held, rfl⟩

variable (d client) in
/-- What the thread may have left to do, after what has happened. -/
inductive Stage (log : List (Beat W)) : List (Frame W) → Prop
  | asking {stack : List (Frame W)} : d.Quiet client log → d.Asking client stack → Stage log stack
  | answered {asked rest : List (Beat W)} {here : State W} {outcome : Outcome}
      (above : List (Frame W)) : log = asked ++ ⟨here, d.thread⟩ :: rest → d.Quiet client asked →
      d.Answers client (some (.ok outcome)) (here.stackOf d.thread) →
      (∀ result, d.Verdict (client.typeOf d.receiver here.shared.world) result →
        d.Once result rest ∧ d.Handing result rest (above ++ d.waits)) →
      Stage log (above ++ d.waits)

theorem Stage.ne_nil {stack : List (Frame W)} (stage : d.Stage client log stack) : stack ≠ [] := by
  cases stage with
  | asking quiet asking => exact asking.ne_nil
  | answered above => simp [waits]

theorem Stage.others {stack : List (Frame W)} {beat : Beat W} (different : beat.thread ≠ d.thread)
    (stage : d.Stage client log stack) : d.Stage client (log ++ [beat]) stack := by
  cases stage with
  | asking quiet asking => exact .asking (quiet.snoc fun own => absurd own different) asking
  | @answered asked rest here outcome above split quiet answers handed =>
    have split' : log ++ [beat] = asked ++ ⟨here, d.thread⟩ :: (rest ++ [beat]) := by simp [split]
    refine .answered above split' quiet answers fun result verdict => ?_
    obtain ⟨once, handing⟩ := handed result verdict
    exact ⟨once.snoc fun own => absurd own different, handing.mono _⟩

/-- A step of the thread leads from one stage to the next. -/
theorem Stage.step (stage : d.Stage client log (s.stackOf d.thread))
    (unreplied : ∀ reply, s.stackOf d.thread ≠ d.replies reply)
    (taken : s.step client d.thread choice = some s') :
    d.Stage client (log ++ [⟨s, d.thread⟩]) (s'.stackOf d.thread) := by
  generalize stack : s.stackOf d.thread = frames at stage
  cases stage with
  | asking quiet asking =>
    rw [← stack] at asking
    rcases asking.step unreplied taken with next | ⟨outcome, answers⟩
    · exact .asking (quiet.snoc fun _ => asking.quiet unreplied) next
    · obtain ⟨above, after⟩ : d.waits <:+ s'.stackOf d.thread := by
        rw [(answers_step answers taken).2]
        exact (List.suffix_cons _ _).trans (List.suffix_append _ _)
      rw [← after]
      refine .answered above rfl quiet answers fun result verdict => ⟨by rintro beat ⟨⟩, ?_⟩
      rw [after, hands_of_verdict answers verdict taken]
      exact .lends _ Hosted.begins
  | @answered asked rest here outcome above split quiet answers handed =>
    obtain ⟨above', after⟩ := State.step_unreplied stack unreplied taken
    rw [after]
    have split' : log ++ [⟨s, d.thread⟩] =
        asked ++ ⟨here, d.thread⟩ :: (rest ++ [⟨s, d.thread⟩]) := by simp [split]
    refine .answered above' split' quiet answers fun result verdict => ?_
    obtain ⟨once, handing⟩ := handed result verdict
    rw [← stack] at handing
    refine ⟨once.snoc fun _ => handing, ?_⟩
    have next := handing.step unreplied taken
    rwa [after] at next

/-- Whatever the thread has left to do while the request is under way, it is a stage of it. -/
theorem Underway.stage (underway : d.Underway client s₀ during s) :
    d.Stage client during (s.stackOf d.thread) := by
  have begins : d.Stage client [] (s₀.stackOf d.thread) := by
    rw [underway.called]
    exact .asking (by rintro beat ⟨⟩) .begun
  exact underway.going.own_induction underway.unreplied begins Stage.ne_nil Stage.others Stage.step

/-! ## What becomes of a request -/

theorem Asking.goes (asking : d.Asking client (s.stackOf d.thread)) (choice : Choice) :
    (∃ s', s.step client d.thread choice = some s') ∨
      d.Answers client none (s.stackOf d.thread) := by
  generalize stack : s.stackOf d.thread = frames at asking
  cases asking with
  | begun | asks =>
    exact .inl (State.exists_step stack (by rintro reply ⟨⟩) fun sight => ⟨_, rfl⟩)
  | answers ended answers =>
    cases ended with
    | none => exact .inr answers
    | some result =>
      obtain ⟨n, hosted⟩ := answers
      exact .inl (State.can_end client choice (stack ▸ hosted))
  | panics n panic held ends => exact .inl (can_pass client choice stack)

theorem Asking.stays {stack : List (Frame W)} (asking : d.Asking client stack) :
    stack = d.begun ∨ d.waits <:+ stack := by
  cases asking with
  | begun => exact .inl rfl
  | asks => exact .inr (List.suffix_append [_, _] _)
  | answers ended answers =>
    obtain ⟨n, hosted⟩ := answers
    exact .inr ((List.suffix_cons _ _).trans hosted.suffix.1)
  | panics n panic held ends =>
    exact .inr ((List.suffix_append _ _).trans (List.suffix_cons _ _))

theorem Asking.of_replies {reply : Reply} (asking : d.Asking client (d.replies reply)) :
    ∃ n panic, (client.consult d.receiver n).CanEnd (.error panic) ∧ reply = .panicked panic := by
  generalize eq : d.replies reply = stack at asking
  cases asking with
  | begun | asks => cases eq
  | answers ended answers =>
    obtain ⟨n, hosted⟩ := answers
    have long := hosted.suffix.2
    simp only [← eq, base, Resolve.replies, List.length_cons] at long
    omega
  | panics n panic held ends =>
    obtain ⟨⟨⟩, _⟩ := List.cons.inj eq
    exact ⟨n, panic, ends, rfl⟩

theorem Handing.goes (handing : d.Handing result log (s.stackOf d.thread)) (choice : Choice) :
    (∃ s', s.step client d.thread choice = some s') ∨
      d.Lends result none (s.stackOf d.thread) := by
  generalize stack : s.stackOf d.thread = frames at handing
  cases handing with
  | lends ended lends =>
    cases ended with
    | none => exact .inr lends
    | some ended => exact .inl (State.can_end client choice (stack ▸ lends))
  | passes held => exact .inl (can_pass client choice stack)

theorem Handing.of_replies {reply : Reply} (handing : d.Handing result log (d.replies reply)) :
    ∃ beat ∈ log, ∃ ended, beat.thread = d.thread ∧
      d.Lends result (some ended) (beat.s.stackOf d.thread) ∧ reply = .ofEnd ended := by
  generalize eq : d.replies reply = stack at handing
  cases handing with
  | lends ended lends =>
    have long := lends.suffix.2
    simp only [← eq, Resolve.replies, List.length_cons, List.length_append, List.length_map] at long
    have some : 0 < (d.holdings result).length := by cases result <;> simp [holdings]
    omega
  | @passes beat ended held mem own lends =>
    obtain ⟨⟨⟩, _⟩ := List.cons.inj eq
    exact ⟨beat, mem, ended, own, lends, rfl⟩

end Resolve

namespace State

/-! ## An argument too many -/

end State
end Strands
