/-
How a call goes on the thread that makes it.

A call asks its receiver for its type up to four times: for the name of the call site, for
the lane, for the arguments that were left out, and for the name of the place they are
computed at.  At any of these the receiver may panic.  `Calling.Stage` lists what the thread
may have left to do for the call, with what the call has done until then.  What follows says
for each kind of step of the call's own that it leads from one stage to the next, and nearer
to the one at which the call replies with its future.
-/
import Strands.Proofs.CallEnding
import Strands.Proofs.Faults

namespace Strands

variable {W : Type}

/-! ## Receivers that panic -/

/-- The client, with an object that panics when it is asked for its type for the `k`-th time
and whenever it is asked again. -/
def Client.panicsFrom (client : Client W) (object : ObjectId) (k : Nat) (payload : Nat → Panic) :
    Client W :=
  { client with
    consult := fun asked n =>
      if asked = object ∧ k ≤ n + 1 then .panic (payload n) else client.consult asked n }

/-- Which question to an object a frame asks, if that is the `k`-th or a later one. -/
def Frame.late? (object : ObjectId) (k : Nat) (s : Shared W) : Frame W → Option Nat
  | query asked _ =>
    if asked = object ∧ k ≤ s.timesAsked object + 1 then some (s.timesAsked object) else none
  | _ => none

def Code.Sober (code : Code W) : Prop := ∀ panic, ¬ code.CanEnd (.error panic)

namespace Code

theorem Sober.goes {code code' : Code W} (sober : code.Sober) (goes : code.Goes code') :
    code'.Sober := fun panic ends => sober panic (Relation.ReflTransGen.head goes ends)

theorem not_sober_panic {payload : Panic} : ¬ (Code.panic payload : Code W).Sober :=
  fun sober => sober payload Relation.ReflTransGen.refl

end Code

/-! ## What a call does -/

def Event.isOther : Event → Bool
  | other => true
  | _ => false

namespace Frame

/-- A client's code runs above these frames: a callback, or what an object does before it
answers. -/
def isHost : Frame W → Bool
  | announce _ | waiting (.query _ _) _ => true
  | _ => false

def isAnswering : Frame W → Bool
  | running (.query _ _) code => code.result?.isNone
  | _ => false

def isStill : Frame W → Bool
  | running _ code => code.result?.isSome
  | query _ _ | openCall _ _ _ | track _ _ | settle _ _ | announce _ | leave | dropHandle
  | letGo _ | deliver _ => true
  | _ => false

end Frame

/-- What a call has done so far, itself. -/
structure Trail (W : Type) where
  /-- The frames that acted. -/
  acted : List (Frame W) := []
  told : List Event := []
  /-- The number of the first question that came late. -/
  late : Option Nat := none

/-- A call that a thread is about to make, and what the thread has left to do then. -/
structure Calling (W : Type) where
  thread : ThreadId
  role : Role W
  mode : Mode
  invocation : Invocation
  callback : Outcome → Code W
  next : Reply → Code W
  below : List (Frame W)
  receiver : ObjectId
  method : String
  hasReceiver : invocation.receiver = some receiver
  hasMethod : invocation.method = some method

namespace Calling

variable (d : Calling W)

def call : Call W where
  mode := d.mode
  receiver := d.receiver
  method := d.method
  invocation := d.invocation
  callback := d.callback

def begun : List (Frame W) :=
  .running d.role (.invoke d.mode d.invocation d.callback d.next) :: d.below

def base : List (Frame W) :=
  .letGo (.ofObject d.receiver ++ .ofParent d.invocation.parent) :: .waiting d.role d.next ::
    d.below

def replies (reply : Reply) : List (Frame W) := .deliver reply :: .waiting d.role d.next :: d.below

def reply (f : FutureId) : List (Frame W) := .deliver (.future f) :: d.base

def first : Frame W :=
  match d.invocation.metadata with
  | none => .query d.receiver (.metadata d.call)
  | some metadata => .openCall d.call metadata none

theorem dispatch_eq : d.invocation.dispatch d.mode d.callback =
    [d.first, .letGo (.ofObject d.receiver ++ .ofParent d.invocation.parent)] := by
  cases given : d.invocation.metadata <;>
    simp [Invocation.dispatch, d.hasReceiver, d.hasMethod, given, call, first]

/-- A frame above these is the call's, and not that of code which the call has run. -/
def Outer (rest : List (Frame W)) : Prop :=
  d.below.length < rest.length ∧ rest.countP Frame.isHost = d.base.countP Frame.isHost

instance (rest : List (Frame W)) : Decidable (d.Outer rest) := inferInstanceAs (Decidable (_ ∧ _))

/-- A step is one of the call's own: of its thread, and neither of the callback nor of an
answer. -/
def owns (beat : Beat W) : Bool :=
  beat.thread == d.thread &&
    match beat.s.stackOf d.thread with
    | [] => false
    | frame :: rest => !frame.isAnswering && d.Outer rest

def own (log : List (Beat W)) : List (Beat W) := log.filter d.owns

def told (client : Client W) (log : List (Beat W)) : List Event :=
  ((d.own log).map (Beat.event client)).filter fun e => !e.isOther

def trail (client : Client W) (k : Nat) (log : List (Beat W)) : Trail W where
  acted := (d.own log).filterMap fun beat => beat.s.acting d.thread
  told := d.told client log
  late := (d.own log).findSome? fun beat =>
    (beat.s.acting d.thread).bind (Frame.late? d.receiver k beat.s.shared)

end Calling

def Trail.snoc (trail : Trail W) (frame : Frame W) (e : Event) (late : Option Nat) : Trail W where
  acted := trail.acted ++ [frame]
  told := trail.told ++ [e].filter fun e => !e.isOther
  late := trail.late.or late

section Trails

variable {d : Calling W} {client : Client W} {k : Nat} {log : List (Beat W)} {s : State W}

theorem Calling.trail_snoc {frame : Frame W} {rest : List (Frame W)}
    (stack : s.stackOf d.thread = frame :: rest) (outer : d.Outer rest)
    (ready : frame.isAnswering = false) :
    d.trail client k (log ++ [⟨s, d.thread⟩]) =
      (d.trail client k log).snoc frame (s.event client d.thread)
        (frame.late? d.receiver k s.shared) := by
  have own : d.own (log ++ [⟨s, d.thread⟩]) = d.own log ++ [⟨s, d.thread⟩] := by
    simp [own, owns, stack, outer, ready]
  have acting := State.acting_of_stackOf stack
  simp only [trail, told, own, Trail.snoc, List.filterMap_append, List.map_append,
    List.filter_append, List.findSome?_append, List.filterMap_cons, List.filterMap_nil, acting,
    List.map_cons, List.map_nil, List.findSome?_cons, List.findSome?_nil, Option.bind_some,
    Beat.event]
  cases frame.late? d.receiver k s.shared <;> rfl

theorem Calling.trail_other {beat : Beat W} (other : d.owns beat = false) :
    d.trail client k (log ++ [beat]) = d.trail client k log := by
  have own : d.own (log ++ [beat]) = d.own log := by simp [own, other]
  simp only [trail, told, own]

end Trails

theorem State.deed_of_stackOf {client : Client W} {s : State W} {thread : ThreadId}
    {frame : Frame W} {below : List (Frame W)} (stack : s.stackOf thread = frame :: below) :
    (⟨s, thread⟩ : Beat W).deed client = frame.deed client s.shared := by
  obtain ⟨t, found, eq⟩ := exists_of_stackOf stack
  simp only [Beat.deed, found, eq, stackDeed]

/-! ## The stages of a call -/

/-- What a call tells that fails because its receiver panicked. -/
inductive Foiled (f : FutureId) (panic : Panic) : List Event → Prop
  | atMetadata (behalf : List FutureId) : Foiled f panic
      [.opened f (some panic) behalf, .notified f (.error (.ofPanic panic)) none, .announced f]
  | atLane (behalf : List FutureId) : Foiled f panic
      [.opened f none behalf, .faulted f (.ofPanic panic),
        .notified f (.error (.ofPanic panic)) none, .announced f]
  | atArguments (behalf : List FutureId) : Foiled f panic
      [.opened f none behalf, .tracked f, .failed f (.ofPanic panic), .handleDropped false, .left,
        .notified f (.error (.ofPanic panic)) none, .announced f]

namespace Frame

def script : Frame W → List Event
  | dropHandle => [.handleDropped false]
  | leave => [.left]
  | settle f outcome => [.notified f outcome none, .announced f]
  | announce f => [.announced f]
  | _ => []

def Undoes (f : FutureId) (outcome : Outcome) : Frame W → Prop
  | dropHandle | leave | letGo _ => True
  | settle g given => g = f ∧ given = outcome
  | announce g => g = f
  | _ => False

end Frame

def Site.callLength : Site W → Nat
  | metadata _ => 21
  | lane _ => 18
  | omitted _ => 15
  | expressions _ _ => 13
  | _ => 0

/-- So far the call has asked and counted, and told no more than this. -/
structure Trail.Asking (trail : Trail W) (told : List Event) (late : Option Nat) (left : Nat) :
    Prop where
  told : trail.told = told
  late : trail.late = late
  still : ∀ frame ∈ trail.acted, frame.isStill = true
  short : trail.acted.length + left ≤ 22

theorem Trail.Asking.snoc {trail : Trail W} {told told' : List Event} {late late' q : Option Nat}
    {left left' : Nat} (asking : trail.Asking told late left) {frame : Frame W} {e : Event}
    (still : frame.isStill = true) (less : left' < left)
    (tells : told ++ [e].filter (fun e => !e.isOther) = told') (asks : late.or q = late') :
    (trail.snoc frame e q).Asking told' late' left' where
  told := by rw [Trail.snoc, asking.told, tells]
  late := by rw [Trail.snoc, asking.late, asks]
  still next mem := by
    rcases List.mem_append.1 mem with earlier | now
    · exact asking.still next earlier
    · rw [List.mem_singleton.1 now, still]
  short := by
    have short := asking.short
    simp only [Trail.snoc, List.length_append, List.length_singleton]
    omega

theorem Trail.Asking.weaken {trail : Trail W} {told : List Event} {late : Option Nat}
    {left left' : Nat} (asking : trail.Asking told late left) (less : left' ≤ left) :
    trail.Asking told late left' :=
  { asking with short := Nat.le_trans (Nat.add_le_add_left less _) asking.short }

namespace Calling

variable (d : Calling W)

def Made (ds : List (Deed W)) (f : FutureId) : Prop :=
  ∃ metadata fault, .opened f d.call metadata fault ∈ ds

/-- What the receiver is asked for the call, on which frames, and what was told before. -/
inductive Asks (ds : List (Deed W)) : List Event → Site W → List (Frame W) → Prop
  | metadata : Asks ds [] (.metadata d.call) d.base
  | lane {metadata : Metadata} {f : FutureId} (behalf : List FutureId) :
      .opened f d.call metadata none ∈ ds →
      Asks ds [.opened f none behalf] (.lane (d.call.open metadata f)) (d.reply f)
  | omitted {metadata : Metadata} {f : FutureId} (lane : Lane) (behalf : List FutureId) :
      .opened f d.call metadata none ∈ ds →
      Asks ds [.opened f none behalf, .tracked f]
        (.omitted ((d.call.open metadata f).lookup lane)) (d.reply f)
  | expressions {metadata : Metadata} {f : FutureId} {pending : List (Omitted W)} (lane : Lane)
      (behalf : List FutureId) : .opened f d.call metadata none ∈ ds → pending ≠ [] →
      Asks ds [.opened f none behalf, .tracked f]
        (.expressions ((d.call.open metadata f).lookup lane) pending) (d.reply f)

/-- Why the receiver is not asked any more, given the errands that are left: it has answered
the last question, or has panicked. -/
inductive Asked (payload : Nat → Panic) (ds : List (Deed W)) (trail : Trail W) (f : FutureId) :
    List (Frame W) → Prop
  | calm {errands : List (Frame W)} : trail.late = none → (∃ δ ∈ ds, δ.Answers f) →
      Asked payload ds trail f errands
  | foiled {errands : List (Frame W)} (n : Nat) : trail.late = some n → (∃ δ ∈ ds, δ.Faults f) →
      Foiled f (payload n) (trail.told ++ errands.flatMap Frame.script) →
      (∀ frame ∈ errands, frame.Undoes f (.error (.ofPanic (payload n)))) →
      (∀ frame ∈ trail.acted, frame.isStill = true) → Asked payload ds trail f errands

/-- What the thread of a call may have left to do, after what the call has done. -/
inductive Stage (payload : Nat → Panic) (ds : List (Deed W)) (trail : Trail W) :
    List (Frame W) → Prop
  | begun : trail.Asking [] none 22 → Stage payload ds trail d.begun
  | asks {told : List Event} {site : Site W} {rest : List (Frame W)} : d.Asks ds told site rest →
      trail.Asking told none (site.callLength + 1) →
      Stage payload ds trail (.query d.receiver site :: rest)
  /-- The receiver is about to answer, or to do something before that. -/
  | answers {told : List Event} {site : Site W} {rest : List (Frame W)} {code : Code W} :
      d.Asks ds told site rest → trail.Asking told none site.callLength → code.Sober →
      Stage payload ds trail (.running (.query d.receiver site) code :: rest)
  /-- What the receiver does before it answers is under way. -/
  | hears {told : List Event} {site : Site W} {rest : List (Frame W)} {next : Reply → Code W}
      (above : List (Frame W)) : d.Asks ds told site rest →
      trail.Asking told none site.callLength → (∀ reply, (next reply).Sober) →
      Stage payload ds trail (above ++ .waiting (.query d.receiver site) next :: rest)
  | panics {told : List Event} {site : Site W} {rest : List (Frame W)} (n : Nat) :
      d.Asks ds told site rest → trail.Asking told (some n) site.callLength →
      Stage payload ds trail (.running (.query d.receiver site) (.panic (payload n)) :: rest)
  | opens (metadata : Metadata) : trail.Asking [] none 20 →
      Stage payload ds trail (.openCall d.call metadata none :: d.base)
  | faults (metadata : Metadata) (n : Nat) : trail.Asking [] (some n) 20 →
      Stage payload ds trail (.openCall d.call metadata (some (payload n)) :: d.base)
  | tracks {metadata : Metadata} {f : FutureId} (lane : Lane) (behalf : List FutureId) :
      .opened f d.call metadata none ∈ ds → trail.Asking [.opened f none behalf] none 17 →
      Stage payload ds trail (.track (d.call.open metadata f) lane :: d.reply f)
  | errands {f : FutureId} {errands : List (Frame W)} : d.Made ds f → Errands errands →
      Asked payload ds trail f errands →
      trail.acted.length + weigh Frame.errandLength errands + 1 ≤ 22 →
      Stage payload ds trail (errands ++ d.reply f)
  /-- The callback is notified, or something that it has left. -/
  | notifies {f g : FutureId} {errands : List (Frame W)} (above : List (Frame W)) :
      d.Made ds f → Errands errands → Asked payload ds trail f (.announce g :: errands) →
      trail.acted.length + weigh Frame.errandLength errands + 2 ≤ 22 →
      Stage payload ds trail (above ++ .announce g :: (errands ++ d.reply f))
  | replies {f : FutureId} : d.Made ds f → Asked payload ds trail f [] → trail.acted.length ≤ 22 →
      Stage payload ds trail (d.replies (.future f))

variable {d} {client : Client W} {payload : Nat → Panic} {ds : List (Deed W)} {trail : Trail W}
  {sight : Sight} {choice : Choice} {s : Shared W} {p : Progress W}

/-! ## Steps of the call's own -/

theorem Asks.mono {told : List Event} {site : Site W} {rest : List (Frame W)}
    (asks : d.Asks ds told site rest) (later : List (Deed W)) :
    d.Asks (ds ++ later) told site rest := by
  cases asks with
  | metadata => exact .metadata
  | lane behalf made => exact .lane behalf (List.mem_append_left _ made)
  | omitted lane behalf made => exact .omitted lane behalf (List.mem_append_left _ made)
  | expressions lane behalf made some =>
    exact .expressions lane behalf (List.mem_append_left _ made) some

theorem Made.mono {f : FutureId} (made : d.Made ds f) (later : List (Deed W)) :
    d.Made (ds ++ later) f := by
  obtain ⟨metadata, fault, mem⟩ := made
  exact ⟨metadata, fault, List.mem_append_left _ mem⟩

theorem Asked.mono {f : FutureId} {errands : List (Frame W)}
    (asked : Asked payload ds trail f errands) (later : List (Deed W)) :
    Asked payload (ds ++ later) trail f errands := by
  cases asked with
  | calm late answers =>
    obtain ⟨δ, mem, answers⟩ := answers
    exact .calm late ⟨δ, List.mem_append_left _ mem, answers⟩
  | foiled n late faults tells undoes still =>
    obtain ⟨δ, mem, faults⟩ := faults
    exact .foiled n late ⟨δ, List.mem_append_left _ mem, faults⟩ tells undoes still

/-- The call is made. -/
theorem begun_step (asking : trail.Asking [] none 22)
    (taken : Frame.step client sight choice s
      (.running d.role (.invoke d.mode d.invocation d.callback d.next)) = some p) :
    d.Stage payload ds trail (p.frames ++ d.below) := by
  cases taken
  show d.Stage payload ds _ ((_ ++ [.waiting d.role d.next]) ++ d.below)
  rw [dispatch_eq]
  cases given : d.invocation.metadata with
  | none =>
    simp only [first, given]
    exact .asks .metadata asking
  | some metadata =>
    simp only [first, given]
    exact .opens metadata (asking.weaken (by decide))

theorem query_step {k : Nat} {told : List Event} {site : Site W} {rest : List (Frame W)}
    (calm : ∀ panic, ¬ client.CanFault d.receiver panic) (asks : d.Asks ds told site rest)
    (asking : trail.Asking told none (site.callLength + 1))
    (taken : Frame.step (client.panicsFrom d.receiver k payload) sight choice s
      (.query d.receiver site) = some p) :
    d.Stage payload ds (trail.snoc (.query d.receiver site) .other
      (Frame.late? d.receiver k s (.query d.receiver site))) (p.frames ++ rest) := by
  cases taken
  simp only [queryStep, Client.panicsFrom, Frame.late?, true_and]
  by_cases late : k ≤ s.timesAsked d.receiver + 1
  · rw [if_pos late, if_pos late]
    exact .panics _ asks (asking.snoc rfl (Nat.lt_succ_self _) (by simp [Event.isOther]) rfl)
  · rw [if_neg late, if_neg late]
    exact .answers asks (asking.snoc rfl (Nat.lt_succ_self _) (by simp [Event.isOther]) rfl)
      fun panic ends => calm panic ⟨_, ends⟩

/-- The call gets its future, and its receiver is asked for the lane unless that is fixed. -/
theorem open_step {metadata : Metadata} {worker : Bool} (asking : trail.Asking [] none 20)
    (taken : Frame.step client sight choice s (.openCall d.call metadata none) = some p) :
    d.Stage payload (ds ++ [Frame.deed client s (.openCall d.call metadata none)])
      (trail.snoc (.openCall d.call metadata none)
        (Frame.event client worker s d.base (.openCall d.call metadata none)) none)
      (p.frames ++ d.base) := by
  cases taken
  have made : .opened s.futures.nextId d.call metadata none ∈
      ds ++ [Frame.deed client s (.openCall d.call metadata none)] := by simp [Frame.deed]
  cases mode : d.call.mode with
  | sequential =>
    simp only [openCallStep, mode]
    exact .tracks .group _ made (asking.snoc rfl (by decide) rfl rfl)
  | concurrent =>
    simp only [openCallStep, mode]
    exact .tracks .free _ made (asking.snoc rfl (by decide) rfl rfl)
  | byIsolation =>
    simp only [openCallStep, mode]
    exact .asks (.lane _ made) (asking.snoc rfl (Nat.lt_succ_self _) rfl rfl)

/-- The call gets a future that fails at once. -/
theorem fault_step {metadata : Metadata} {n : Nat} {worker : Bool}
    (asking : trail.Asking [] (some n) 20)
    (taken : Frame.step client sight choice s
      (.openCall d.call metadata (some (payload n))) = some p) :
    d.Stage payload (ds ++ [Frame.deed client s (.openCall d.call metadata (some (payload n)))])
      (trail.snoc (.openCall d.call metadata (some (payload n)))
        (Frame.event client worker s d.base (.openCall d.call metadata (some (payload n)))) none)
      (p.frames ++ d.base) := by
  cases taken
  have next : (trail.snoc (.openCall d.call metadata (some (payload n)))
      (Frame.event client worker s d.base (.openCall d.call metadata (some (payload n))))
        none).Asking [.opened s.futures.nextId (some (payload n)) (context d.base)] (some n) 4 :=
    asking.snoc rfl (by decide) rfl rfl
  have mem : .opened s.futures.nextId d.call metadata (some (payload n)) ∈
      ds ++ [Frame.deed client s (.openCall d.call metadata (some (payload n)))] := by
    simp [Frame.deed]
  show d.Stage payload _ _ ([.settle s.futures.nextId _, .letGo _] ++ d.reply s.futures.nextId)
  refine .errands ⟨_, _, mem⟩ ?_ (.foiled n next.late ⟨_, mem, rfl, rfl⟩ ?_ ?_ next.still) ?_
  · simp [Frame.isErrand]
  · rw [next.told]
    exact .atMetadata _
  · simp [Frame.Undoes]
  · have short := next.short
    simp [Frame.errandLength]
    omega

theorem track_step {metadata : Metadata} {f : FutureId} {lane : Lane} {behalf : List FutureId}
    (made : .opened f d.call metadata none ∈ ds)
    (asking : trail.Asking [.opened f none behalf] none 17)
    (taken : Frame.step client sight choice s (.track (d.call.open metadata f) lane) = some p) :
    d.Stage payload ds (trail.snoc (.track (d.call.open metadata f) lane) (.tracked f) none)
      (p.frames ++ d.reply f) := by
  cases taken
  exact .asks (.omitted lane behalf made) (asking.snoc rfl (Nat.lt_succ_self _) rfl rfl)

section Answering

variable {told : List Event} {metadata : Metadata} {f : FutureId} {lane : Lane}
  {behalf : List FutureId} {worker : Bool}

theorem calm_errands {frame : Frame W} {e : Event} {errands : List (Frame W)} {left : Nat}
    (asking : trail.Asking told none left) (made : .opened f d.call metadata none ∈ ds)
    (all : Errands errands) (short : weigh Frame.errandLength errands + 2 ≤ left)
    {δ : Deed W} (answers : δ.Answers f) :
    d.Stage payload (ds ++ [δ]) (trail.snoc frame e none) (errands ++ d.reply f) := by
  have bound := asking.short
  refine .errands ⟨metadata, none, List.mem_append_left _ made⟩ all
    (.calm (by simp [Trail.snoc, asking.late]) ⟨δ, by simp, answers⟩) ?_
  simp only [Trail.snoc, List.length_append, List.length_singleton]
  omega

/-- The receiver says which arguments were left out. -/
theorem plan_step {lookup : Lookup W} {outcome : Outcome}
    (eq : lookup = (d.call.open metadata f).lookup lane)
    (made : .opened f d.call metadata none ∈ ds)
    (asking : trail.Asking [.opened f none behalf, .tracked f] none 15)
    (taken : Frame.step client sight choice s
      (.running (.query d.receiver (.omitted lookup)) (.finish outcome)) = some p) :
    d.Stage payload
      (ds ++ [Frame.deed client s
        (.running (.query d.receiver (.omitted lookup)) (.finish outcome))])
      (trail.snoc (.running (.query d.receiver (.omitted lookup)) (.finish outcome))
        (Frame.event client worker s (d.reply f)
          (.running (.query d.receiver (.omitted lookup)) (.finish outcome))) none)
      (p.frames ++ d.reply f) := by
  cases taken
  have place : lookup.next = .place
      { receiver := d.receiver, method := d.method, lane, future := f } := by rw [eq]; rfl
  cases missing : (client.typeOf d.receiver s.world).omitted lookup.method lookup.args.length with
  | error e =>
    simp only [Frame.deed, Code.deed, Role.endedDeed, Site.answeredDeed, Role.ended, Site.answered,
      missing]
    refine calm_errands asking made ?_ ?_ (by simp [Deed.Answers, place, Next.call?])
    · simp [place, Next.resume, Frame.isErrand]
    · simp [place, Next.resume, Frame.errandLength]
  | ok pending =>
    cases pending with
    | nil =>
      simp only [Frame.deed, Code.deed, Role.endedDeed, Site.answeredDeed, Role.ended,
        Site.answered, missing]
      refine calm_errands asking made ?_ ?_ (by simp [Deed.Answers, place, Next.call?])
      · simp [place, Next.resume, Frame.isErrand, Asker.isClient]
      · simp [place, Next.resume, Frame.errandLength]
    | cons first others =>
      simp only [Frame.deed, Code.deed, Role.endedDeed, Site.answeredDeed, Frame.event, Code.event,
        Role.endedEvent, Site.answeredEvent, Role.ended, Site.answered, missing]
      subst eq
      exact .asks (.expressions lane behalf (List.mem_append_left _ made) (by simp))
        (asking.snoc rfl (Nat.lt_succ_self _) rfl rfl)

/-- The receiver answers a question. -/
theorem answer_step {site : Site W} {rest : List (Frame W)} {outcome : Outcome}
    (asks : d.Asks ds told site rest) (asking : trail.Asking told none site.callLength)
    (taken : Frame.step client sight choice s
      (.running (.query d.receiver site) (.finish outcome)) = some p) :
    d.Stage payload
      (ds ++ [Frame.deed client s (.running (.query d.receiver site) (.finish outcome))])
      (trail.snoc (.running (.query d.receiver site) (.finish outcome))
        (Frame.event client worker s rest (.running (.query d.receiver site) (.finish outcome)))
        none)
      (p.frames ++ rest) := by
  cases asks with
  | metadata =>
    cases taken
    exact .opens _ (asking.snoc rfl (Nat.lt_succ_self _) rfl rfl)
  | lane behalf made =>
    cases taken
    exact .tracks _ behalf (List.mem_append_left _ made)
      (asking.snoc rfl (Nat.lt_succ_self _) rfl rfl)
  | omitted lane behalf made => exact plan_step rfl made asking taken
  | expressions lane behalf made some =>
    cases taken
    show d.Stage payload _ _ ([_] ++ d.reply _)
    refine calm_errands asking made ?_ ?_ ?_
    · simpa [Frame.isErrand] using some
    · simp [Frame.errandLength, Site.callLength]
    · exact rfl

theorem foiled_errands {trail : Trail W} {told : List Event} {frame : Frame W} {e : Event}
    {errands : List (Frame W)} {n left : Nat} {δ : Deed W}
    (asking : trail.Asking told (some n) left) (still : frame.isStill = true)
    (made : .opened f d.call metadata none ∈ ds) (all : Errands errands)
    (short : weigh Frame.errandLength errands + 2 ≤ left) (faults : δ.Faults f)
    (tells : Foiled f (payload n)
      (told ++ [e].filter (fun e => !e.isOther) ++ errands.flatMap Frame.script))
    (undoes : ∀ frame ∈ errands, frame.Undoes f (.error (.ofPanic (payload n)))) :
    d.Stage payload (ds ++ [δ]) (trail.snoc frame e none) (errands ++ d.reply f) := by
  have next : (trail.snoc frame e none).Asking _ (some n) (left - 1) :=
    asking.snoc still (by omega) rfl rfl
  have bound := next.short
  exact .errands ⟨metadata, none, List.mem_append_left _ made⟩ all
    (.foiled n next.late ⟨δ, by simp, faults⟩ (by rwa [next.told]) undoes next.still) (by omega)

/-- The receiver panics, and what the call holds is undone. -/
theorem panic_step {site : Site W} {rest : List (Frame W)} {n : Nat}
    (asks : d.Asks ds told site rest) (asking : trail.Asking told (some n) site.callLength)
    (taken : Frame.step client sight choice s
      (.running (.query d.receiver site) (.panic (payload n))) = some p) :
    d.Stage payload
      (ds ++ [Frame.deed client s (.running (.query d.receiver site) (.panic (payload n)))])
      (trail.snoc (.running (.query d.receiver site) (.panic (payload n)))
        (Frame.event client worker s rest (.running (.query d.receiver site) (.panic (payload n))))
        none)
      (p.frames ++ rest) := by
  cases asks with
  | metadata =>
    cases taken
    exact .faults _ n (asking.snoc rfl (Nat.lt_succ_self _) rfl rfl)
  | lane behalf made =>
    cases taken
    show d.Stage payload _ _ ([_] ++ d.reply _)
    refine foiled_errands asking rfl made ?_ ?_ rfl (.atLane behalf) ?_
    · simp [Frame.isErrand]
    · simp [Frame.errandLength, Site.callLength]
    · simp [Frame.Undoes, Call.open, OpenCall.future, FutureSpec.strand]
  | omitted lane behalf made | expressions lane behalf made some =>
    cases taken
    show d.Stage payload _ _ ([_, _, _] ++ d.reply _)
    refine foiled_errands asking rfl made ?_ ?_ rfl (.atArguments behalf) ?_
    · simp [Frame.isErrand]
    · simp [Frame.errandLength, Site.callLength]
    · simp [Frame.Undoes, Call.open, OpenCall.future, FutureSpec.strand]

end Answering

section Errands

variable {f : FutureId} {frame : Frame W} {rest : List (Frame W)} {worker : Bool} {δ : Deed W}

/-- An errand of a call that goes on. -/
theorem calm_step {e : Event} (isOpen : s.queue.closed = false)
    (kept : frame = .dropHandle → s.handles ≠ 1) (made : d.Made ds f)
    (all : Errands (frame :: rest)) (late : trail.late = none) (answers : ∃ δ ∈ ds, δ.Answers f)
    (short : trail.acted.length + weigh Frame.errandLength (frame :: rest) + 1 ≤ 22)
    (taken : frame.step client sight choice s = some p) :
    d.Stage payload (ds ++ [δ]) (trail.snoc frame e none) (p.frames ++ (rest ++ d.reply f)) := by
  obtain ⟨errand, others⟩ := errands_cons.1 all
  have asked {errands : List (Frame W)} :
      Asked payload (ds ++ [δ]) (trail.snoc frame e none) f errands :=
    (Asked.calm (by simp [Trail.snoc, late]) answers).mono [δ]
  have length : (trail.snoc frame e none).acted.length = trail.acted.length + 1 := by
    simp [Trail.snoc]
  rw [weigh_cons] at short
  rcases Frame.step_errand isOpen kept errand taken with
    ⟨left, less⟩ | ⟨g, outcome, callback, rfl, frames⟩
  · rw [← List.append_assoc]
    refine .errands (made.mono [δ]) (errands_append.2 ⟨left, others⟩) asked ?_
    rw [length, weigh_append]
    omega
  · rw [frames, List.append_assoc]
    refine .notifies (g := g) callback (made.mono [δ]) others asked ?_
    rw [length]
    change trail.acted.length + (2 + _) + 1 ≤ 22 at short
    omega

theorem Asked.foiled_snoc {n : Nat} {e : Event} {errands errands' : List (Frame W)}
    (late : trail.late = some n) (faults : ∃ δ ∈ ds, δ.Faults f)
    (tells : Foiled f (payload n) (trail.told ++ errands.flatMap Frame.script))
    (still : ∀ frame ∈ trail.acted, frame.isStill = true) (now : frame.isStill = true)
    (script : [e].filter (fun e => !e.isOther) ++ errands'.flatMap Frame.script =
      errands.flatMap Frame.script)
    (undoes : ∀ next ∈ errands', next.Undoes f (.error (.ofPanic (payload n)))) :
    Asked payload (ds ++ [δ]) (trail.snoc frame e none) f errands' := by
  refine (Asked.foiled n ?_ faults ?_ undoes ?_).mono [δ]
  · rw [Trail.snoc, late]
    rfl
  · rwa [Trail.snoc, List.append_assoc, script]
  · intro next mem
    rcases List.mem_append.1 mem with earlier | here
    · exact still next earlier
    · rwa [List.mem_singleton.1 here]

/-- An errand of a call that fails. -/
theorem foiled_step {n : Nat} (kept : frame = .dropHandle → s.handles ≠ 1)
    (pending : ∀ outcome, frame = .settle f outcome → ∃ u, s.futures.get? f = some u ∧
      u.state = none ∧ u.callback = some (.client d.call.callback))
    (made : d.Made ds f) (all : Errands (frame :: rest))
    (late : trail.late = some n) (faults : ∃ δ ∈ ds, δ.Faults f)
    (tells : Foiled f (payload n) (trail.told ++ (frame :: rest).flatMap Frame.script))
    (undoes : ∀ next ∈ frame :: rest, next.Undoes f (.error (.ofPanic (payload n))))
    (still : ∀ frame ∈ trail.acted, frame.isStill = true)
    (short : trail.acted.length + weigh Frame.errandLength (frame :: rest) + 1 ≤ 22)
    (taken : frame.step client sight choice s = some p) :
    d.Stage payload (ds ++ [δ]) (trail.snoc frame (frame.event client worker s (rest ++ d.reply f))
      none) (p.frames ++ (rest ++ d.reply f)) := by
  obtain ⟨errand, others⟩ := errands_cons.1 all
  obtain ⟨own, undone⟩ := List.forall_mem_cons.1 undoes
  have length {e : Event} : (trail.snoc frame e none).acted.length = trail.acted.length + 1 := by
    simp [Trail.snoc]
  rw [weigh_cons] at short
  cases frame with
  | dropHandle =>
    have more : ¬ s.handles = 1 := kept rfl
    cases taken
    simp only [dropHandleStep, Frame.event, more, if_false, decide_false]
    refine .errands (made.mono [δ]) others ?_ ?_
    · exact Asked.foiled_snoc late faults tells still rfl rfl undone
    · rw [length]
      change trail.acted.length + (1 + _) + 1 ≤ 22 at short
      omega
  | leave | letGo held =>
    cases taken
    refine .errands (made.mono [δ]) others ?_ ?_
    · exact Asked.foiled_snoc late faults tells still rfl rfl undone
    · rw [length]
      change trail.acted.length + (1 + _) + 1 ≤ 22 at short
      omega
  | settle g outcome =>
    obtain ⟨rfl, rfl⟩ := own
    obtain ⟨⟨strand, returnType, state, callback, notified, claimed, isKept⟩, found, rfl, rfl⟩ :=
      pending _ rfl
    cases taken
    simp only [settleStep, Frame.event, found]
    refine .notifies (g := g) [_] (made.mono [δ]) others ?_ ?_
    · refine Asked.foiled_snoc late faults tells still rfl rfl ?_
      exact List.forall_mem_cons.2 ⟨rfl, undone⟩
    · rw [length]
      change trail.acted.length + (2 + _) + 1 ≤ 22 at short
      omega
  | announce g => cases errand
  | _ => exact own.elim

/-- A call that waits for something to return tells of it, and has no errand more. -/
theorem Asked.snoc {e : Event} {errands errands' : List (Frame W)}
    (asked : Asked payload ds trail f errands) (now : frame.isStill = true)
    (script : [e].filter (fun e => !e.isOther) ++ errands'.flatMap Frame.script =
      errands.flatMap Frame.script) (fewer : errands' ⊆ errands) :
    Asked payload (ds ++ [δ]) (trail.snoc frame e none) f errands' := by
  cases asked with
  | calm late answers => exact (Asked.calm (by simp [Trail.snoc, late]) answers).mono [δ]
  | foiled n late faults tells undoes still =>
    exact Asked.foiled_snoc late faults tells still now script fun next mem =>
      undoes next (fewer mem)

theorem announce_step {g : FutureId} {errands : List (Frame W)} (made : d.Made ds f)
    (all : Errands errands) (asked : Asked payload ds trail f (.announce g :: errands))
    (short : trail.acted.length + weigh Frame.errandLength errands + 2 ≤ 22)
    (taken : (Frame.announce g).step client sight choice s = some p) :
    d.Stage payload (ds ++ [δ]) (trail.snoc (.announce g)
      ((Frame.announce g).event client worker s (errands ++ d.reply f)) none)
      (p.frames ++ (errands ++ d.reply f)) := by
  cases taken
  refine .errands (made.mono [δ]) all ?_ ?_
  · exact asked.snoc rfl rfl (List.subset_cons_self _ _)
  · simp only [Trail.snoc, List.length_append, List.length_singleton]
    omega

/-- The call has nothing left to do. -/
theorem pass_step (made : d.Made ds f) (asked : Asked payload ds trail f [])
    (short : trail.acted.length + 1 ≤ 22) :
    d.Stage payload (ds ++ [δ]) (trail.snoc (.deliver (.future f)) .other none)
      (d.replies (.future f)) := by
  refine .replies (made.mono [δ]) (asked.snoc rfl rfl (List.Subset.refl _)) ?_
  simp only [Trail.snoc, List.length_append, List.length_singleton]
  exact short

end Errands

end Calling

end Strands
