/-
Calls in a runtime that is closed for good.

A call is made as ever: its receiver is asked for its type, it gets a future, and its arguments
are compared with the signature.  If they do not fit, the future fails with that.  If they fit,
the first unit that the call comes to need is refused, the first omitted argument's or the call's
own, and the future fails with the refusal: at once in the one case, through the callback of the
argument's future in the other.  Either way the call's callback has returned before the call
replies with its future (`Calling.TurnedAway`).  `Calling.Phase` lists what the thread may have left
to do meanwhile.
-/
import Strands.Proofs.Arity
import Strands.Proofs.Refusing
import Strands.Proofs.Underway

namespace Strands

variable {W : Type}

/-- So many arguments fit the signature of a method: none is too many, and none is left out that
has no default.  A method that the type does not know takes what it is given. -/
def ObjectType.Fits (t : ObjectType W) (name : String) (given : Nat) : Prop :=
  ∀ m, t.method? name = some m → ¬ m.Exceeded given ∧ m.Fillable given

/-- What becomes of a call to an object of a type if no unit can be placed for it. -/
inductive ObjectType.Fate (t : ObjectType W) (name : String) (given : Nat) : Outcome → Prop
  | exceeded {m : Method W} : t.method? name = some m → m.Exceeded given →
      Fate t name given (.error (t.tooMany name m.params.length given))
  | lacks {m : Method W} {p : Param W} : t.method? name = some m → ¬ m.Exceeded given →
      m.Lacks given p → Fate t name given (.error (t.missing name p.name))
  | fits : t.Fits name given → Fate t name given refusal

namespace ObjectType

variable {t : ObjectType W} {name : String} {given : Nat}

theorem fate_of_error {e : DomainError} (found : t.omitted name given = .error e) :
    t.Fate name given (.error e) := by
  obtain ⟨m, known, ⟨exceeded, rfl⟩ | ⟨fits, p, lacks, rfl⟩⟩ := omitted_eq_error.1 found
  · exact .exceeded known exceeded
  · exact .lacks known fits lacks

theorem fate_of_ok {pending : List (Omitted W)} (found : t.omitted name given = .ok pending) :
    t.Fate name given refusal := by
  refine .fits fun m known => ?_
  have fits : ¬ m.Exceeded given := fun exceeded => by
    rw [omitted_of_exceeded known exceeded] at found
    cases found
  refine ⟨fits, (m.lacks_or_fillable given).resolve_left ?_⟩
  rintro ⟨p, lacks⟩
  rw [omitted_of_lacks known fits lacks] at found
  cases found

end ObjectType

def Site.phaseLength : Site W → Nat
  | metadata _ => 30
  | lane _ => 27
  | omitted _ => 24
  | expressions _ _ => 22
  | _ => 0

namespace Calling

variable (d : Calling W)

def operation : Operation W where
  thread := d.thread
  role := d.role
  code := .invoke d.mode d.invocation d.callback d.next
  next := d.next
  below := d.below
  asks := rfl

def held : Holding := .ofObject d.receiver ++ .ofParent d.invocation.parent

/-- The receiver has answered which arguments the call leaves out, and its type then decides what
becomes of the call. -/
def Decided (client : Client W) (log : List (Beat W)) (f : FutureId) (o : Outcome) : Prop :=
  ∃ beat ∈ log, beat.thread = d.thread ∧ ∃ metadata lane outcome,
    beat.s.stackOf d.thread =
      .running (.query d.receiver (.omitted ((d.call.open metadata f).lookup lane)))
        (.finish outcome) :: d.reply f ∧
    (client.typeOf d.receiver beat.s.shared.world).Fate d.method d.invocation.args.length o

/-- A call is made in vain, and nobody waits for it. -/
structure TurnedAway (client : Client W) (before during : List (Beat W)) (s : State W) :
    Prop where
  /-- The call takes so many steps at most, but for client code. -/
  short : (d.operation.own during).length ≤ 32
  /-- The thread can go on, unless client code has it. -/
  goes : (∀ reply, s.stackOf d.thread ≠ d.replies reply) → ∀ choice,
    (∃ s', s.step client d.thread choice = some s') ∨
      d.operation.lends (s.stackOf d.thread) = true
  /-- The call replies with its future.  That has failed, because the arguments do not fit the
  signature or because the runtime is closed, and the callback was notified of that and of nothing
  else, and has returned. -/
  replies : ∀ reply, s.stackOf d.thread = d.replies reply → ∃ f o, reply = .future f ∧
    d.Made (deeds client during) f ∧ d.Decided client during f o ∧
    (∃ beat ∈ during, beat.Notifies client d.callback f o) ∧
    Completed (events client (before ++ during)) s f o

/-! ## Phases -/

inductive Due (ds : List (Deed W)) (f : FutureId) : FutureId → Nat → Prop
  /-- The call's own. -/
  | call : Due ds f f 0
  /-- That of an argument of the call. -/
  | argument {g : FutureId} {omitted : Omitted W} {r : Resolution W} :
      .argument g omitted r ∈ ds → r.next.call? = some f → Due ds f g 9

/-- If the receiver is asked a last time, its type has decided that the call is refused. -/
def Informed (client : Client W) (log : List (Beat W)) (site : Site W) : Prop :=
  ∀ lookup pending f, site = .expressions lookup pending → lookup.next.call? = some f →
    d.Decided client log f refusal

inductive Phase (client : Client W) (log : List (Beat W)) : Nat → List (Frame W) → Prop
  | begun : Phase client log 32 d.begun
  | asks {told : List Event} {site : Site W} {rest : List (Frame W)} :
      d.Asks (deeds client log) told site rest → d.Informed client log site →
      Phase client log (site.phaseLength + 1) (.query d.receiver site :: rest)
  /-- The receiver is about to answer, or to do something before that. -/
  | answers {told : List Event} {site : Site W} {rest stack : List (Frame W)} (n : Nat)
      {ended : Option (Except Panic Outcome)} : d.Asks (deeds client log) told site rest →
      d.Informed client log site →
      Hosted (.query d.receiver site) (client.consult d.receiver n) rest ended stack →
      Phase client log site.phaseLength stack
  | opens (metadata : Metadata) : Phase client log 29 (.openCall d.call metadata none :: d.base)
  | tracks {metadata : Metadata} {f : FutureId} (lane : Lane) :
      .opened f d.call metadata none ∈ deeds client log →
      Phase client log 26 (.track (d.call.open metadata f) lane :: d.reply f)
  | evaluates {f : FutureId} {r : Resolution W} : d.Made (deeds client log) f →
      d.Decided client log f refusal → r.pending ≠ [] → r.next.call? = some f →
      Phase client log 21 (.evaluate r :: d.reply f)
  | claims {f : FutureId} {p : Placing W} {more : Nat} (chores : List (Frame W)) :
      d.Made (deeds client log) f → d.Decided client log f refusal →
      Due (deeds client log) f p.future more → p.asker = .nobody → Chores chores →
      Phase client log (weigh Frame.choreLength chores + 8 + more)
        (.claim p :: (chores ++ d.reply f))
  | bars {f g : FutureId} {frame : Frame W} {more : Nat} (chores : List (Frame W)) :
      d.Made (deeds client log) f → d.Decided client log f refusal →
      Due (deeds client log) f g more → frame.barred? = some (g, .nobody) → Chores chores →
      Phase client log (weigh Frame.choreLength chores + 5 + more + frame.barLength)
        (frame :: (chores ++ d.reply f))
  /-- A future is to fail because its unit was refused. -/
  | fails {f g : FutureId} {more : Nat} (chores : List (Frame W)) :
      d.Made (deeds client log) f → d.Decided client log f refusal →
      Due (deeds client log) f g more → Chores chores →
      Phase client log (weigh Frame.choreLength chores + 4 + more)
        (.settle g refusal :: (chores ++ d.reply f))
  /-- The call's future is to fail. -/
  | settles {f : FutureId} {o : Outcome} (chores : List (Frame W)) :
      d.Made (deeds client log) f → d.Decided client log f o → Chores chores →
      Phase client log (weigh Frame.choreLength chores + 4)
        (.settle f o :: (chores ++ d.reply f))
  | ends {f : FutureId} {o : Outcome} {left : Nat} {stack : List (Frame W)} :
      d.Made (deeds client log) f → d.Decided client log f o →
      d.operation.Ending client f o (.future f) d.held log left stack →
      Phase client log left stack

variable {d} {client : Client W} {s s' : State W} {before log : List (Beat W)} {left : Nat}
  {choice : Choice}

theorem Due.mono {ds : List (Deed W)} {f g : FutureId} {more : Nat} (due : Due ds f g more)
    (later : List (Deed W)) : Due (ds ++ later) f g more := by
  cases due with
  | call => exact .call
  | argument made next => exact .argument (List.mem_append_left _ made) next

theorem Made.later {f : FutureId} (made : d.Made (deeds client log) f) (later : List (Beat W)) :
    d.Made (deeds client (log ++ later)) f := by
  rw [deeds_append]
  exact made.mono _

theorem Decided.mono {f : FutureId} {o : Outcome} (decided : d.Decided client log f o)
    (later : List (Beat W)) : d.Decided client (log ++ later) f o := by
  obtain ⟨beat, mem, stood⟩ := decided
  exact ⟨beat, List.mem_append_left _ mem, stood⟩

theorem Informed.mono {site : Site W} (informed : d.Informed client log site)
    (later : List (Beat W)) : d.Informed client (log ++ later) site :=
  fun lookup pending f eq next => (informed lookup pending f eq next).mono later

theorem Phase.mono {stack : List (Frame W)} (phase : d.Phase client log left stack)
    (later : List (Beat W)) : d.Phase client (log ++ later) left stack := by
  have due {f g : FutureId} {more : Nat} (due : Due (deeds client log) f g more) :
      Due (deeds client (log ++ later)) f g more := by
    rw [deeds_append]
    exact due.mono _
  have asks {told : List Event} {site : Site W} {rest : List (Frame W)}
      (asks : d.Asks (deeds client log) told site rest) :
      d.Asks (deeds client (log ++ later)) told site rest := by
    rw [deeds_append]
    exact asks.mono _
  cases phase with
  | begun => exact .begun
  | asks asking informed => exact .asks (asks asking) (informed.mono _)
  | answers n asking informed hosted => exact .answers n (asks asking) (informed.mono _) hosted
  | opens metadata => exact .opens metadata
  | tracks lane opened => exact .tracks lane (mem_deeds_left opened _)
  | evaluates made decided some next =>
    exact .evaluates (made.later _) (decided.mono _) some next
  | claims chores made decided awaits asker all =>
    exact .claims chores (made.later _) (decided.mono _) (due awaits) asker all
  | bars chores made decided awaits bars all =>
    exact .bars chores (made.later _) (decided.mono _) (due awaits) bars all
  | fails chores made decided awaits all =>
    exact .fails chores (made.later _) (decided.mono _) (due awaits) all
  | settles chores made decided all =>
    exact .settles chores (made.later _) (decided.mono _) all
  | ends made decided ending => exact .ends (made.later _) (decided.mono _) (ending.mono _)

/-! ## Steps -/

variable (d) in
def Nears (client : Client W) (log : List (Beat W)) (s s' : State W) (left : Nat) : Prop :=
  ∃ left', d.Phase client (log ++ [⟨s, d.thread⟩]) left' (s'.stackOf d.thread) ∧ left' < left

theorem mem_deeds_concat {δ : Deed W} {frame : Frame W} {rest : List (Frame W)}
    (stack : s.stackOf d.thread = frame :: rest) (deed : frame.deed client s.shared = δ) :
    δ ∈ deeds client (log ++ [⟨s, d.thread⟩]) := by
  refine mem_deeds_right _ (List.mem_singleton.2 ?_)
  rw [← deed, State.deed_of_stackOf stack]

theorem informed_of_ne {site : Site W}
    (other : ∀ lookup pending, site ≠ .expressions lookup pending) : d.Informed client log site :=
  fun lookup pending _ eq => absurd eq (other lookup pending)

section Asking

theorem begun_phase (stack : s.stackOf d.thread = d.begun)
    (taken : s.step client d.thread choice = some s') : d.Nears client log s s' 32 := by
  obtain ⟨worker, p, moved, _, after⟩ := State.own_step stack (by rintro reply ⟨⟩) taken
  cases moved
  rw [dispatch_eq] at after
  rw [Nears, after]
  cases given : d.invocation.metadata with
  | none =>
    simp only [first, given]
    exact ⟨31, .asks .metadata (informed_of_ne (by rintro lookup pending ⟨⟩)), Nat.lt_succ_self _⟩
  | some metadata =>
    simp only [first, given]
    exact ⟨29, .opens metadata, by decide⟩

theorem ask_phase {told : List Event} {site : Site W} {rest : List (Frame W)}
    (asks : d.Asks (deeds client log) told site rest) (informed : d.Informed client log site)
    (stack : s.stackOf d.thread = .query d.receiver site :: rest)
    (taken : s.step client d.thread choice = some s') :
    d.Nears client log s s' (site.phaseLength + 1) := by
  obtain ⟨worker, p, moved, _, after⟩ := State.own_step stack (by rintro reply ⟨⟩) taken
  cases moved
  rw [Nears, after]
  exact ⟨_, (Phase.answers _ asks informed Hosted.begins).mono _, Nat.lt_succ_self _⟩

/-- The call gets its future, and its receiver is asked for the lane unless that is fixed. -/
theorem open_phase {metadata : Metadata}
    (stack : s.stackOf d.thread = .openCall d.call metadata none :: d.base)
    (taken : s.step client d.thread choice = some s') : d.Nears client log s s' 29 := by
  have made : .opened s.shared.futures.nextId d.call metadata none ∈
      deeds client (log ++ [⟨s, d.thread⟩]) := mem_deeds_concat stack rfl
  obtain ⟨worker, p, moved, _, after⟩ := State.own_step stack (by rintro reply ⟨⟩) taken
  cases moved
  rw [Nears, after]
  cases mode : d.call.mode with
  | sequential =>
    simp only [openCallStep, mode]
    exact ⟨26, .tracks .group made, by decide⟩
  | concurrent =>
    simp only [openCallStep, mode]
    exact ⟨26, .tracks .free made, by decide⟩
  | byIsolation =>
    simp only [openCallStep, mode]
    exact ⟨28, .asks (.lane [] made) (informed_of_ne (by rintro lookup pending ⟨⟩)),
      Nat.lt_succ_self _⟩

theorem track_phase {metadata : Metadata} {f : FutureId} {lane : Lane}
    (made : .opened f d.call metadata none ∈ deeds client log)
    (stack : s.stackOf d.thread = .track (d.call.open metadata f) lane :: d.reply f)
    (taken : s.step client d.thread choice = some s') : d.Nears client log s s' 26 := by
  obtain ⟨worker, p, moved, _, after⟩ := State.own_step stack (by rintro reply ⟨⟩) taken
  cases moved
  rw [Nears, after]
  refine ⟨25, Phase.mono (.asks (.omitted lane [] made) ?_) _, Nat.lt_succ_self _⟩
  exact informed_of_ne (by rintro lookup pending ⟨⟩)

/-- The receiver says which arguments were left out. -/
theorem plan_phase {metadata : Metadata} {f : FutureId} {lane : Lane} {outcome : Outcome}
    (made : .opened f d.call metadata none ∈ deeds client log)
    (stack : s.stackOf d.thread =
      .running (.query d.receiver (.omitted ((d.call.open metadata f).lookup lane)))
        (.finish outcome) :: d.reply f)
    (taken : s.step client d.thread choice = some s') : d.Nears client log s s' 24 := by
  have decided {o : Outcome} (fate : (client.typeOf d.receiver s.shared.world).Fate d.method
      d.invocation.args.length o) : d.Decided client (log ++ [⟨s, d.thread⟩]) f o :=
    ⟨⟨s, d.thread⟩, by simp, rfl, metadata, lane, outcome, stack, fate⟩
  have opened : .opened f d.call metadata none ∈ deeds client (log ++ [⟨s, d.thread⟩]) :=
    mem_deeds_left made _
  obtain ⟨worker, p, moved, _, after⟩ := State.own_step stack (by rintro reply ⟨⟩) taken
  cases moved
  rw [Nears, after]
  cases missing : (client.typeOf d.receiver s.shared.world).omitted d.method
      d.invocation.args.length with
  | error e =>
    simp only [Role.ended, Site.answered, OpenCall.lookup, Call.open, call, missing]
    have fate := decided (ObjectType.fate_of_error missing)
    exact ⟨_, .settles [.letGo _, .leave, .dropHandle, .letGo _] ⟨metadata, none, opened⟩ fate
      (chores_of_all rfl), by simp [Frame.choreLength]⟩
  | ok pending =>
    have refused := decided (ObjectType.fate_of_ok missing)
    cases pending with
    | nil =>
      simp only [Role.ended, Site.answered, OpenCall.lookup, Call.open, call, missing]
      exact ⟨_, .claims [.letGo _, .leave, .dropHandle] ⟨metadata, none, opened⟩ refused .call rfl
        (chores_of_all rfl), by simp [Frame.choreLength]⟩
    | cons omitted others =>
      simp only [Role.ended, Site.answered, OpenCall.lookup, Call.open, call, missing]
      refine ⟨23, .asks (.expressions lane [] opened (by simp)) ?_, by decide⟩
      rintro lookup pending g ⟨⟩ next
      cases next
      exact refused

theorem answer_phase {told : List Event} {site : Site W} {rest : List (Frame W)}
    {outcome : Outcome} (asks : d.Asks (deeds client log) told site rest)
    (informed : d.Informed client log site)
    (stack : s.stackOf d.thread = .running (.query d.receiver site) (.finish outcome) :: rest)
    (taken : s.step client d.thread choice = some s') :
    d.Nears client log s s' site.phaseLength := by
  cases asks with
  | omitted lane behalf made => exact plan_phase made stack taken
  | metadata =>
    obtain ⟨worker, p, moved, _, after⟩ := State.own_step stack (by rintro reply ⟨⟩) taken
    cases moved
    rw [Nears, after]
    exact ⟨29, .opens _, Nat.lt_succ_self _⟩
  | lane behalf made =>
    obtain ⟨worker, p, moved, _, after⟩ := State.own_step stack (by rintro reply ⟨⟩) taken
    cases moved
    rw [Nears, after]
    exact ⟨26, (Phase.tracks _ made).mono _, Nat.lt_succ_self _⟩
  | expressions lane behalf made some =>
    have decided := informed _ _ _ rfl rfl
    obtain ⟨worker, p, moved, _, after⟩ := State.own_step stack (by rintro reply ⟨⟩) taken
    cases moved
    rw [Nears, after]
    exact ⟨21, Phase.mono (.evaluates ⟨_, none, made⟩ decided some rfl) _, Nat.lt_succ_self _⟩

theorem evaluate_phase {f : FutureId} {r : Resolution W} (made : d.Made (deeds client log) f)
    (decided : d.Decided client log f refusal) (some : r.pending ≠ [])
    (next : r.next.call? = .some f) (stack : s.stackOf d.thread = .evaluate r :: d.reply f)
    (taken : s.step client d.thread choice = .some s') : d.Nears client log s s' 21 := by
  obtain ⟨omitted, others, pending⟩ := List.exists_cons_of_ne_nil some
  have argument : .argument s.shared.futures.nextId omitted { r with pending := others } ∈
      deeds client (log ++ [⟨s, d.thread⟩]) :=
    mem_deeds_concat stack (by simp only [Frame.deed, pending])
  obtain ⟨worker, p, moved, _, after⟩ := State.own_step stack (by rintro reply ⟨⟩) taken
  cases moved
  rw [Nears, after]
  simp only [evaluateStep, pending]
  exact ⟨_, .claims [.letGo _, .dropHandle] (made.later _) (decided.mono _) (.argument argument next) rfl
    (chores_of_all rfl), by simp [Frame.choreLength]⟩

end Asking

section Refusals

/-- A unit on its way to a lane is refused. -/
theorem bar_phase {f g : FutureId} {frame : Frame W} {chores : List (Frame W)} {more : Nat}
    (made : d.Made (deeds client log) f) (decided : d.Decided client log f refusal)
    (due : Due (deeds client log) f g more) (bars : frame.barred? = some (g, .nobody))
    (all : Chores chores) (lasts : d.operation.Lasts s)
    (stack : s.stackOf d.thread = frame :: (chores ++ d.reply f))
    (taken : s.step client d.thread choice = some s') :
    d.Nears client log s s'
      (weigh Frame.choreLength chores + 5 + more + frame.barLength) := by
  obtain ⟨worker, p, moved, _, after⟩ :=
    State.own_step stack (by rintro reply rfl; cases bars) taken
  rw [Nears, after]
  rcases Frame.step_barred lasts.closed.closed bars moved with
    ⟨next, frames, bars', less⟩ | ⟨job, frames⟩
  · rw [frames]
    exact ⟨_, Phase.mono (.bars chores made decided due bars' all) _,
      Nat.add_lt_add_left less _⟩
  · rw [frames]
    have pos : 0 < frame.barLength := by cases frame <;> exact Nat.zero_lt_succ _
    refine ⟨_, Phase.mono (.fails (.discard job :: chores) made decided due
      (chores_cons.2 ⟨rfl, all⟩)) _, ?_⟩
    rw [weigh_cons]
    simp only [Frame.choreLength]
    omega

variable {workers : Nat} {world : W} {kept : List ObjectId} {threads : List (Code W)}
  {s₀ : State W} (run : State.Log client (State.start workers world kept threads) before s₀)
  (going : State.Log client s₀ log s)

include run going

/-- No client has bound a unit of its own to a future whose unit the call comes to need. -/
theorem Due.untaken {f g : FutureId} {more : Nat} (due : Due (deeds client log) f g more)
    (replies : .deliver (.future f) ∈ s.stackOf d.thread) :
    ¬ Taken (events client (before ++ log)) g := by
  have whole := run.append going
  cases due with
  | call =>
    have reply : Stake.reply f ∈ s.stakes :=
      State.mem_stakes_of_stackOf replies (List.mem_singleton.2 rfl)
    exact whole.trace.untaken_of_reply f (weigh_pos_of_mem reply (one_self f))
  | @argument g omitted r argument next =>
    obtain ⟨e, mem, tells⟩ := whole.event_of_deed (mem_deeds_right _ argument)
    cases tells with
    | argument call =>
      exact whole.trace.untaken_of_spares g (tally_pos_of_mem mem (one_self g))

theorem claim_phase {f : FutureId} {p : Placing W} {chores : List (Frame W)} {more : Nat}
    (made : d.Made (deeds client log) f) (decided : d.Decided client log f refusal)
    (due : Due (deeds client log) f p.future more) (asker : p.asker = .nobody)
    (all : Chores chores) (stack : s.stackOf d.thread = .claim p :: (chores ++ d.reply f))
    (taken : s.step client d.thread choice = some s') :
    d.Nears client log s s' (weigh Frame.choreLength chores + 8 + more) := by
  have inStack {frame : Frame W} (mem : frame ∈ .claim p :: (chores ++ d.reply f)) :
      frame ∈ s.stackOf d.thread := by rwa [stack]
  have untaken := due.untaken run going
    (inStack (List.mem_cons_of_mem _ (List.mem_append_right _ List.mem_cons_self)))
  have attempt : Stake.attempt p.future false ∈ s.stakes := by
    refine State.mem_stakes_of_stackOf (inStack List.mem_cons_self) ?_
    rw [Frame.stakes, asker]
    exact List.mem_singleton_self _
  obtain ⟨u, found, free⟩ := (run.append going).trace.unclaimed_of_chain p.future untaken
    (weigh_pos_of_mem attempt (one_self _))
  obtain ⟨worker, q, moved, _, after⟩ := State.own_step stack (by rintro reply ⟨⟩) taken
  cases moved
  rw [Nears, after, claimStep_of_free found free]
  refine ⟨_, Phase.mono (.bars chores made decided due ?_ all) _, ?_⟩
  · rw [Frame.barred?, asker]
  · simp only [Frame.barLength]
    omega

theorem settle_phase {f : FutureId} {o : Outcome} {chores : List (Frame W)}
    (made : d.Made (deeds client log) f) (decided : d.Decided client log f o)
    (all : Chores chores) (stack : s.stackOf d.thread = .settle f o :: (chores ++ d.reply f))
    (taken : s.step client d.thread choice = some s') :
    d.Nears client log s s' (weigh Frame.choreLength chores + 4) := by
  have inStack {frame : Frame W} (mem : frame ∈ .settle f o :: (chores ++ d.reply f)) :
      frame ∈ s.stackOf d.thread := by rwa [stack]
  obtain ⟨metadata, fault, opened⟩ := id made
  obtain ⟨u, found, pending, own⟩ := pending_of_settle (run.append going)
    (mem_deeds_right _ opened) (inStack List.mem_cons_self)
    (inStack (List.mem_cons_of_mem _ (List.mem_append_right _ List.mem_cons_self)))
  obtain ⟨after, event⟩ := State.settle_pending stack found pending own taken
  have notified : .notified f o none ∈ events client (log ++ [⟨s, d.thread⟩]) :=
    mem_events_last log event
  rw [Nears, after]
  exact ⟨_, .ends (made.later _) (decided.mono _) (Operation.Ending.begins all notified),
    Nat.lt_succ_self _⟩

/-- A future fails because its unit was refused, and so does the call. -/
theorem fail_phase {f g : FutureId} {chores : List (Frame W)} {more : Nat}
    (made : d.Made (deeds client log) f) (decided : d.Decided client log f refusal)
    (due : Due (deeds client log) f g more) (all : Chores chores)
    (stack : s.stackOf d.thread = .settle g refusal :: (chores ++ d.reply f))
    (taken : s.step client d.thread choice = some s') :
    d.Nears client log s s' (weigh Frame.choreLength chores + 4 + more) := by
  have inStack {frame : Frame W} (mem : frame ∈ .settle g refusal :: (chores ++ d.reply f)) :
      frame ∈ s.stackOf d.thread := by rwa [stack]
  have untaken := due.untaken run going
    (inStack (List.mem_cons_of_mem _ (List.mem_append_right _ List.mem_cons_self)))
  cases due with
  | call => exact settle_phase run going made decided all stack taken
  | @argument g omitted r argument next =>
    have whole := run.append going
    have there : .argument g omitted r ∈ deeds client (before ++ log) :=
      mem_deeds_right _ argument
    have settles : Stake.settle g ∈ s.stakes :=
      State.mem_stakes_of_stackOf (inStack List.mem_cons_self) (List.mem_singleton.2 rfl)
    obtain ⟨u, found, pending⟩ := whole.trace.pending_of_course g untaken
      (weigh_pos_of_mem settles (by simp [Stake.chain, Stake.work]))
    obtain ⟨v, there, own⟩ := whole.callback_of_deed there rfl
    obtain rfl := Option.some.inj (found.symm.trans there)
    obtain ⟨after, _⟩ := State.settle_pending stack found pending (own pending) taken
    obtain ⟨call, place, rfl⟩ : ∃ call, r.next = .place call ∧ call.future = f := by
      cases place : r.next with
      | place call => exact ⟨call, rfl, by simpa [place, Next.call?] using next⟩
      | client continuation => simp [place, Next.call?] at next
    have frames : (Callback.argument r).notify refusal =
        .settle call.future refusal :: [.letGo r.next.held, .leave, .dropHandle,
          .letGo (.ofValues r.args ++ r.background), .dropHandle] := by
      simp [Callback.notify, refusal, place, Next.resume]
    rw [Nears, after, frames]
    refine ⟨_, Phase.mono (.settles ([_, _, _, _, _, .announce g] ++ chores) made decided
      (chores_append.2 ⟨chores_of_all rfl, all⟩)) _, ?_⟩
    rw [weigh_append]
    simp [Frame.choreLength]
    omega

end Refusals

/-! ## The call in a run -/

theorem Asks.exists_above {ds : List (Deed W)} {told : List Event} {site : Site W}
    {rest : List (Frame W)} (asks : d.Asks ds told site rest) :
    ∃ frame above, rest = frame :: above ++ d.operation.waits := by
  cases asks with
  | metadata => exact ⟨_, [], rfl⟩
  | lane | omitted | expressions => exact ⟨_, [_], rfl⟩

section Run

variable {during : List (Beat W)} {workers : Nat} {world : W} {kept : List ObjectId}
  {threads : List (Code W)} {s₀ : State W}

/-- A step of the thread leads nearer to the reply, unless client code has the thread. -/
theorem Phase.step (calm : ∀ panic, ¬ client.CanFault d.receiver panic)
    (run : State.Log client (State.start workers world kept threads) before s₀)
    (going : State.Log client s₀ log s)
    (phase : d.Phase client log left (s.stackOf d.thread)) (lasts : d.operation.Lasts s)
    (taken : s.step client d.thread choice = some s') :
    ∃ left', d.Phase client (log ++ [⟨s, d.thread⟩]) left' (s'.stackOf d.thread) ∧
      (left' < left ∨ left' = left ∧ d.operation.lends (s.stackOf d.thread) = true) := by
  generalize stack : s.stackOf d.thread = frames at phase
  have nearer (nears : d.Nears client log s s' left) : ∃ left',
      d.Phase client (log ++ [⟨s, d.thread⟩]) left' (s'.stackOf d.thread) ∧
        (left' < left ∨ left' = left ∧ d.operation.lends frames = true) := by
    obtain ⟨left', next, less⟩ := nears
    exact ⟨left', next, .inl less⟩
  cases phase with
  | begun => exact nearer (begun_phase stack taken)
  | asks asks informed => exact nearer (ask_phase asks informed stack taken)
  | @answers told site rest _ n ended asks informed hosted =>
    rw [← stack] at hosted
    cases ended with
    | none =>
      obtain ⟨first, above, rfl⟩ := asks.exists_above
      have lends := Operation.lends_of_hosted hosted
      obtain ⟨ended, next⟩ := State.hosted_step hosted taken
      exact ⟨_, (Phase.answers n asks informed next).mono _, .inr ⟨rfl, stack ▸ lends⟩⟩
    | some result =>
      obtain ⟨ends, here⟩ := hosted.ending
      cases result with
      | ok outcome => exact nearer (answer_phase asks informed here taken)
      | error panic => exact absurd ⟨n, ends⟩ (calm panic)
  | opens metadata => exact nearer (open_phase stack taken)
  | tracks lane made => exact nearer (track_phase made stack taken)
  | evaluates made decided some next =>
    exact nearer (evaluate_phase made decided some next stack taken)
  | claims chores made decided due asker all =>
    exact nearer (claim_phase run going made decided due asker all stack taken)
  | bars chores made decided due bars all =>
    exact nearer (bar_phase made decided due bars all lasts stack taken)
  | fails chores made decided due all =>
    exact nearer (fail_phase run going made decided due all stack taken)
  | settles chores made decided all =>
    exact nearer (settle_phase run going made decided all stack taken)
  | ends made decided ending =>
    rw [← stack] at ending ⊢
    obtain ⟨left', next, less⟩ := ending.step lasts taken
    exact ⟨left', .ends (made.later _) (decided.mono _) next, less⟩

/-- The thread can go on, unless client code has it. -/
theorem Phase.goes (phase : d.Phase client log left (s.stackOf d.thread))
    (unreplied : ∀ reply, s.stackOf d.thread ≠ d.replies reply) (choice : Choice) :
    (∃ s', s.step client d.thread choice = some s') ∨
      d.operation.lends (s.stackOf d.thread) = true := by
  generalize stack : s.stackOf d.thread = frames at phase
  cases phase with
  | begun | asks | opens | tracks | evaluates | claims | fails | settles =>
    exact .inl (State.exists_step stack (by rintro reply ⟨⟩) fun sight => ⟨_, rfl⟩)
  | @answers told site rest _ n ended asks informed hosted =>
    cases ended with
    | none =>
      obtain ⟨first, above, rfl⟩ := asks.exists_above
      exact .inr (Operation.lends_of_hosted hosted)
    | some result => exact .inl (State.can_end client choice (stack ▸ hosted))
  | bars chores made decided due bars all =>
    exact .inl (State.exists_step stack (by rintro reply rfl; cases bars) fun sight =>
      Frame.barred_can client sight choice s.shared bars)
  | ends made decided ending =>
    rw [← stack] at ending ⊢
    exact ending.goes (unreplied _) choice

/-- The call replies with its future once that has failed. -/
theorem Phase.of_replies {reply : Reply} (phase : d.Phase client log left (d.replies reply)) :
    ∃ f o, reply = .future f ∧ d.Made (deeds client log) f ∧ d.Decided client log f o ∧
      .notified f o none ∈ events client log ∧ .announced f ∈ events client log := by
  generalize eq : d.replies reply = frames at phase
  cases phase with
  | begun | asks | opens | tracks | evaluates | claims | fails | settles => cases eq
  | answers n asks informed hosted =>
    have long := hosted.suffix.2
    obtain ⟨first, above, rfl⟩ := asks.exists_above
    rw [← eq, List.length_append, List.length_cons] at long
    simp only [Calling.replies, Operation.waits, operation, List.length_cons] at long
    omega
  | bars chores made decided due bars all =>
    obtain ⟨rfl, _⟩ := List.cons.inj eq
    cases bars
  | ends made decided ending =>
    obtain ⟨rfl, told⟩ := (eq ▸ ending).of_replies
    exact ⟨_, _, rfl, made, decided, told⟩

/-- A call that is made once the runtime is closed for good fails. -/
theorem turnedAway (calm : ∀ panic, ¬ client.CanFault d.receiver panic)
    (run : State.Log client (State.start workers world kept threads) before s₀)
    (closed : s₀.Sealed) (underway : d.operation.Underway client s₀ during s) :
    d.TurnedAway client before during s := by
  obtain ⟨left, phase, short⟩ := underway.stages run closed (P := d.Phase client) .begun
    (fun _ phase => phase.mono _)
    fun earlier lasts phase taken => phase.step calm run earlier.going lasts taken
  refine ⟨by omega, fun unreplied => phase.goes unreplied, fun reply replied => ?_⟩
  rw [show s.stackOf d.operation.thread = _ from replied] at phase
  obtain ⟨f, o, rfl, made, decided, notified, announced⟩ := phase.of_replies
  have whole := run.append underway.going
  refine ⟨f, o, rfl, made, decided, ?_, ?_⟩
  · obtain ⟨beat, inLog, event⟩ := List.mem_map.1 notified
    refine ⟨beat, inLog, ?_⟩
    obtain ⟨metadata, fault, opened⟩ := made
    have there : .opened f d.call metadata fault ∈ deeds client (before ++ during) :=
      mem_deeds_right _ opened
    exact whole.delivers there (List.mem_append_right _ inLog) event
  · exact whole.trace.completed_of_notified (mem_events_right _ notified)
      (mem_events_right _ announced)

end Run

end Calling

end Strands
