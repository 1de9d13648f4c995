/-
When sequential calls join their receiver's lane.

A sequential call joins its receiver's lane when its arguments are complete.  If none had
to be computed, that is before the call has returned: whatever the scheduler holds for a
call until then is held above the reply on its caller's stack, `Log.direct`, so nothing
is left of it once the reply is delivered (`Log.enroute_of_handed`).  If one had to be, the
call joins the lane when the last of them has come out, and calls that were made later may
be there before it.

`Log.joins` is what follows for two sequential calls of one receiver.  The method runs for
the one that joined first, and its callback returns, before the method runs for the other;
and that is the call that returned first, if none of its arguments was computed.
`order_not_kept` is a run in which an argument was.
-/
import Strands.Proofs.Pipeline
import Strands.Proofs.Placed

namespace Strands

variable {W : Type}

/-! ## What is sought for a sequential call -/

namespace Deed

theorem next_of_made {δ : Deed W} {quest : Quest W} (made : δ.made = some quest) :
    (∃ lookup, δ = .sought lookup ∧ lookup.next = quest.next) ∨
      ∃ earlier, δ.gone = some earlier ∧ earlier.next = quest.next := by
  cases δ with
  | sought lookup => cases made; exact .inl ⟨lookup, rfl, rfl⟩
  | planned lookup pending | began lookup pending metadata | argument future omitted r
  | gained future r value => cases made; exact .inr ⟨_, rfl, rfl⟩
  | _ => cases made

end Deed

namespace State

variable {client : Client W} {workers : Nat} {world : W} {kept : List ObjectId}
  {threads : List (Code W)} {s : State W} {log : List (Beat W)}

theorem mem_quests_of_step {s s' : State W} {thread : ThreadId} {choice : Choice}
    (numbered : ∀ f u, s.shared.futures.get? f = some u → u.strand.id = f)
    (taken : s.step client thread choice = some s') {quest : Quest W} (mem : quest ∈ s'.quests) :
    quest ∈ s.quests ∨ ((⟨s, thread⟩ : Beat W).deed client).made = some quest := by
  have perm : (s'.quests ++ ((⟨s, thread⟩ : Beat W).deed client).gone.toList).Perm
      (s.quests ++ ((⟨s, thread⟩ : Beat W).deed client).made.toList) := by
    rw [perm_iff_weigh]
    intro w
    rw [weigh_append, weigh_append]
    exact quests_step numbered taken w
  rcases List.mem_append.1 (perm.subset (List.mem_append_left _ mem)) with earlier | made
  · exact .inl earlier
  · exact .inr (Option.mem_toList.1 made)

section Seeking

variable (run : Log client (State.start workers world kept threads) log s)

include run

/-- Every request for arguments, and what was handed over to anybody, was begun by a
lookup. -/
theorem Log.sought_of_quests :
    (∀ quest ∈ s.quests, ∃ lookup, .sought lookup ∈ deeds client log ∧
      lookup.next = quest.next) ∧
    ∀ quest result, .handed quest result ∈ deeds client log →
      ∃ lookup, .sought lookup ∈ deeds client log ∧ lookup.next = quest.next := by
  induction run with
  | start =>
    rw [quests_start]
    exact ⟨by simp, by simp⟩
  | @step log s s' thread choice run taken ih =>
    obtain ⟨held, handed⟩ := ih
    have balance := quests_step run.trace.recorded.numbered taken
    have lasts {quest : Quest W} (mem : quest ∈ s.quests) :
        ∃ lookup, .sought lookup ∈ deeds client (log ++ [⟨s, thread⟩]) ∧
          lookup.next = quest.next := by
      obtain ⟨lookup, sought, same⟩ := held quest mem
      exact ⟨lookup, mem_deeds_left sought _, same⟩
    refine ⟨fun quest mem => ?_, fun quest result mem => ?_⟩
    · rcases mem_quests_of_step run.trace.recorded.numbered taken mem with earlier | made
      · exact lasts earlier
      · rcases Deed.next_of_made made with
          ⟨lookup, sought, same⟩ | ⟨earlier, gone, same⟩
        · exact ⟨lookup, by rw [deeds_append, ← sought]; simp, same⟩
        · obtain ⟨lookup, sought, same'⟩ := lasts (held_of_gone balance gone)
          exact ⟨lookup, sought, same'.trans same⟩
    · rw [deeds_append] at mem
      rcases List.mem_append.1 mem with earlier | new
      · obtain ⟨lookup, sought, same⟩ := handed quest result earlier
        exact ⟨lookup, mem_deeds_left sought _, same⟩
      · refine lasts (held_of_gone balance ?_)
        rw [← List.mem_singleton.1 new]
        rfl

/-- The arguments of a sequential call are about to be asked for, or were, on behalf of the
group lane. -/
theorem Log.sought_of_sequential {f : FutureId} {call : Call W} {metadata : Metadata}
    (opened : .opened f call metadata none ∈ deeds client log) (mode : call.mode = .sequential) :
    (∃ t ∈ s.threads, ∃ below, t.stack = .track (call.open metadata f) .group :: below) ∨
      .sought ((call.open metadata f).lookup .group) ∈ deeds client log := by
  induction run with
  | start => cases opened
  | @step log s s' thread choice run taken ih =>
    obtain ⟨acted⟩ := step_cases taken
    have deed := deed_of_acted acted
    have move := acted.move
    rw [deeds_append] at opened ⊢
    rcases List.mem_append.1 opened with earlier | new
    · rcases ih earlier with ⟨t, mem, below, stack⟩ | sought
      · rw [acted.threads] at mem
        simp only [List.mem_append, List.mem_cons] at mem
        rcases mem with before | rfl | after
        · exact .inl ⟨t, by rw [acted.threads']; simp [before], below, stack⟩
        · -- The thread's own step asks for them.
          rw [acted.stack] at stack
          generalize acted.progress = p at move
          generalize acted.top = top at move stack deed
          cases move with
          | receive reply role next | pass reply held => cases stack
          | act moved =>
            obtain ⟨rfl, _⟩ := List.cons.inj stack
            refine .inr (List.mem_append_right _ (List.mem_singleton.2 ?_))
            exact deed.symm
        · exact .inl ⟨t, by rw [acted.threads']; simp [after], below, stack⟩
      · exact .inr (List.mem_append_left _ sought)
    · rw [← List.mem_singleton.1 new] at deed
      have found := List.mem_of_getElem? acted.actor_eq'
      generalize acted.progress = p at move found
      generalize acted.top = top at move deed
      cases move with
      | receive reply role next | pass reply held => cases deed
      | act moved =>
        obtain ⟨rfl, rfl⟩ := Frame.of_opened deed.symm
        cases moved
        refine .inl ⟨_, found, .deliver (.future s.shared.futures.nextId) :: acted.below, ?_⟩
        simp only [openCallStep, mode]
        rfl

end Seeking
end State

/-! ## What is held for a call -/

namespace Stake

def openings (f : FutureId) : Stake → Nat
  | opening g => one f g
  | _ => 0

/-- What the scheduler holds for a future until its job is on the queue or a lane. -/
def enroute (f : FutureId) : Stake → Nat
  | opening g | call g | attempt g false | bound g false | hand g => one f g
  | _ => 0

end Stake

namespace Event

def tracks (f : FutureId) : Event → Nat
  | tracked g | faulted g _ => one f g
  | _ => 0

def lends (f : FutureId) : Event → Nat
  | counted g true => one f g
  | _ => 0

def arises (f : FutureId) (e : Event) : Nat := e.begins f + e.lends f

theorem of_begins {f : FutureId} {e : Event} (h : 0 < e.begins f) :
    (∃ fault context, e = .opened f fault context) ∨ 0 < e.spares f := by
  rw [begins_eq] at h
  by_cases opens : 0 < e.opens f
  · exact .inl (of_opens opens)
  · exact .inr (by omega)

theorem of_lends {f : FutureId} {e : Event} (h : 0 < e.lends f) : e = .counted f true := by
  cases e with
  | counted g byClient =>
    cases byClient with
    | true => rw [one_pos h]
    | false => cases h
  | _ => cases h

theorem enroute_made_le (f : FutureId) (e : Event) :
    weigh (Stake.enroute f) e.made ≤ weigh (Stake.enroute f) e.gone + e.arises f := by
  cases e with
  | opened g fault context =>
    cases fault <;> simp [Stake.enroute, arises, begins, lends]
  | claimed g byClient context | counted g byClient =>
    cases byClient <;> simp [Stake.enroute, arises, begins, lends]
  | appended r group g took => cases took <;> simp [Stake.enroute, arises, begins, lends]
  | notified g outcome failing => cases failing <;> simp [Stake.enroute, arises, begins, lends]
  | drained group futures | closed futures => simp [Stake.enroute, arises, begins, lends]
  | refused g | stranded g => simp [Stake.enroute, arises, begins, lends]
  | _ => simp [Stake.enroute, arises, begins, lends]

theorem tally_arises (f : FutureId) (history : List Event) :
    tally (Event.arises f) history = tally (Event.opens f) history +
      tally (Event.spares f) history + tally (Event.lends f) history := by
  rw [← tally_add, ← tally_add]
  exact congrArg (tally · history) (funext fun e => by rw [arises, begins_eq])

end Event

namespace State

variable {client : Client W} {workers : Nat} {world : W} {kept : List ObjectId}
  {threads : List (Code W)} {s : State W} {log : List (Beat W)} {history : List Event}

section Laws

attribute [local simp] Stake.openings Stake.enroute Event.tracks Event.faults Event.opens
  Event.queues Event.refuses Event.rejects Event.fails Event.begins Event.lends Event.arises

variable (trace : Trace client (State.start workers world kept threads) history s) (f : FutureId)

include trace

theorem Trace.open_law :
    weigh (Stake.openings f) s.stakes + tally (fun e => e.tracks f + e.faults f) history =
      tally (Event.opens f) history := by
  refine trace.law _ _ _ fun e => ?_
  cases e with
  | opened g fault context => cases fault <;> simp
  | appended r group g took => cases took <;> simp
  | notified g outcome failing => cases failing <;> simp
  | _ => simp

theorem Trace.enroute_law :
    weigh (Stake.enroute f) s.stakes +
        tally (fun e => e.queues f + (e.refuses f + e.rejects f + e.fails f + e.faults f))
          history =
      tally (Event.arises f) history := by
  refine trace.law _ _ _ fun e => ?_
  cases e with
  | opened g fault context => cases fault <;> simp
  | claimed g byClient context | counted g byClient | rejected g byClient =>
    cases byClient <;> simp
  | appended r group g took => cases took <;> simp
  | notified g outcome failing => cases failing <;> simp
  | _ => simp

end Laws

/-! ## The lane of a sequential call -/

section Lane

variable (run : Log client (State.start workers world kept threads) log s) {f : FutureId}

include run

theorem Log.sought_unique {lookup lookup' : Lookup W}
    (sought : .sought lookup ∈ deeds client log) (next : lookup.next.call? = some f)
    (sought' : .sought lookup' ∈ deeds client log) (next' : lookup'.next.call? = some f) :
    lookup = lookup' := by
  have once : tally (Event.tracks f) (events client log) ≤ 1 := by
    have law := run.trace.open_law f
    have births := run.trace.births_le f
    have opens := tally_le_tally (Event.opens_le_serves f) (events client log)
    have serves := run.trace.serves_spares_le f
    rw [tally_add] at law
    omega
  have counts {lookup : Lookup W} (next : lookup.next.call? = some f) (e : Event)
      (tells : (Deed.sought lookup).Tells e) : 0 < e.tracks f := by
    cases tells with
    | sought none =>
      rw [none] at next
      cases next
    | tracked own =>
      obtain rfl := Option.some.inj (own.symm.trans next)
      simp [Event.tracks]
  have same := run.deed_unique once sought sought' (counts next) (counts next')
  cases same
  rfl

/-- The unit of a sequential call is bound to the lane of its receiver, by nobody's request. -/
theorem Log.place_of_sequential {call : Call W} {metadata : Metadata}
    (opened : .opened f call metadata none ∈ deeds client log) (mode : call.mode = .sequential)
    {p : Placing W} (bound : .bound p ∈ deeds client log) (own : p.future = f)
    {receiver : ObjectId} {method : String} {args : List Value}
    (task : p.task = .call receiver method args) :
    p.place = .group call.receiver ∧ p.asker = .nobody := by
  rcases (run.vouched.deeds _ bound : p.Vouched _).cases with
    ⟨omitted, r, _, other⟩ | ⟨quest, args', next, handed, goal, rfl⟩ | placed | asked
  · rw [other] at task
    cases task
  · obtain ⟨lookup, sought, same⟩ := run.sought_of_quests.2 _ _ handed
    have goesTo : lookup.next.call? = some f := by rw [same, goal, ← own]; rfl
    rcases run.sought_of_sequential opened mode with ⟨t, mem, below, stack⟩ | sought'
    · -- The call would be counted and yet to be counted.
      have inStack : .track (call.open metadata f) .group ∈ t.stack := by rw [stack]; simp
      have opening : .opening f ∈ s.stakes :=
        State.stakes_of_mem mem inStack (List.mem_singleton.2 rfl)
      have held := weigh_pos_of_mem (w := Stake.openings f) opening (one_self f)
      have law := run.trace.open_law f
      have opens := tally_le_tally (Event.opens_le_serves f) (events client log)
      have serves := run.trace.serves_spares_le f
      obtain ⟨e, inEvents, tells⟩ := run.event_of_deed sought
      have tracks : 0 < tally (Event.tracks f) (events client log) := by
        cases tells with
        | sought none =>
          rw [none] at goesTo
          cases goesTo
        | tracked same =>
          obtain rfl := Option.some.inj (same.symm.trans goesTo)
          exact tally_pos_of_mem inEvents (one_self _)
      rw [tally_add] at law
      omega
    · have eq := run.sought_unique sought goesTo sought' rfl
      rw [eq, goal] at same
      cases same
      exact ⟨rfl, rfl⟩
  · obtain ⟨_, work, placed⟩ := run.vouched.deeds _ placed
    rw [placed] at task
    cases task
  · obtain ⟨listener, asked⟩ := run.vouched.deeds _ asked
    rw [asked] at task
    cases task

end Lane
end State

/-! ## Above the reply -/

def Released (history : List Event) (f : FutureId) : Prop :=
  0 < tally (Event.spares f) history ∨ (∃ d, .argument d (some f) ∈ history) ∨
    .counted f true ∈ history

theorem Released.append {a : List Event} {f : FutureId} (h : Released a f) (b : List Event) :
    Released (a ++ b) f := by
  rcases h with spares | ⟨d, mem⟩ | mem
  · refine .inl ?_
    rw [tally_append]
    omega
  · exact .inr (.inl ⟨d, List.mem_append_left _ mem⟩)
  · exact .inr (.inr (List.mem_append_left _ mem))

/-- What a frame holds for a future on its way is held above the reply that hands the future
over. -/
def Frame.Direct (history : List Event) (below : List (Frame W)) (frame : Frame W) : Prop :=
  ∀ f, 0 < weigh (Stake.enroute f) frame.stakes →
    .deliver (.future f) ∈ below ∨ Released history f

theorem Frame.Direct.mono {history : List Event} {below : List (Frame W)} {frame : Frame W}
    (h : frame.Direct history below) (e : Event) : frame.Direct (history ++ [e]) below :=
  fun f held => (h f held).imp_right fun released => released.append [e]

theorem stacked_append {P : List (Frame W) → Frame W → Prop} {frames below : List (Frame W)}
    (each : ∀ a frame b, frames = a ++ frame :: b → P (b ++ below) frame)
    (rest : Stacked P below) : Stacked P (frames ++ below) := by
  induction frames with
  | nil => exact rest
  | cons frame others ih =>
    refine ⟨each [] frame others rfl, ih fun a next b eq => each (frame :: a) next b ?_⟩
    rw [eq, List.cons_append]

theorem mem_of_append_singleton {α : Type} {a b front : List α} {x last : α}
    (split : a ++ x :: b = front ++ [last]) (ne : x ≠ last) : last ∈ b := by
  rcases List.eq_nil_or_concat b with rfl | ⟨others, y, rfl⟩
  · exact absurd (List.cons.inj (List.append_inj' split rfl).2).1 ne
  · have same : (a ++ x :: others) ++ [y] = front ++ [last] := by simpa using split
    rw [← (List.cons.inj (List.append_inj' same rfl).2).1]
    simp

theorem Move.enroute_le {client : Client W} {sight : Sight} {choice : Choice} {s : Shared W}
    {top : List (Frame W)} {p : Progress W} (move : Move client sight choice s top p)
    (worker : Bool) (below : List (Frame W)) (f : FutureId) :
    weigh (Stake.enroute f) (Frame.stakesOf p.frames) ≤
      weigh (Stake.enroute f) (Frame.stakesOf top) + weigh (Stake.enroute f) s.stakes +
        (Move.event client worker s below top).arises f := by
  have balance := (move.balanced worker below).stakes (Stake.enroute f)
  have made := (Move.event client worker s below top).enroute_made_le f
  omega

/-- Of what is on its way, callbacks hold calls only. -/
theorem Shared.call_of_enroute {s : Shared W} {f : FutureId}
    (held : 0 < weigh (Stake.enroute f) s.stakes) : .call f ∈ s.stakes := by
  obtain ⟨stake, mem, counts⟩ := weigh_pos held
  have shared := Shared.not_personal mem
  cases stake with
  | call g => rwa [← one_pos counts]
  | job g | token g | handle => cases counts
  | _ => cases shared

/-- A future is handed over by the innermost frame, to the code that waits for it. -/
theorem Move.top_of_handed {client : Client W} {worker : Bool} {sight : Sight} {choice : Choice}
    {s : Shared W} {top below : List (Frame W)} {p : Progress W} {f : FutureId}
    (move : Move client sight choice s top p)
    (event : Move.event client worker s below top = .handed f) :
    ∃ rest, top = .deliver (.future f) :: rest ∧ .deliver (.future f) ∉ rest := by
  cases move with
  | receive reply role next =>
    cases reply with
    | future g =>
      cases event
      exact ⟨[.waiting role next], rfl, by simp⟩
    | _ => cases event
  | pass reply held => cases event
  | @act frame p taken =>
    have balance := (Frame.step_balanced worker below taken).stakes (Stake.replies f)
    rw [show frame.event client worker s below = .handed f from event] at balance
    have shared : weigh (Stake.replies f) s.stakes = 0 := by
      by_contra held
      obtain ⟨stake, mem, counts⟩ := weigh_pos (Nat.pos_of_ne_zero held)
      have shared := Shared.not_personal mem
      cases stake with
      | reply g => cases shared
      | _ => cases counts
    simp only [Event.gone, Event.made, weigh_cons, weigh_nil, Stake.replies, one_self, shared,
      Frame.stakesOf_cons, Frame.stakesOf_nil, List.append_nil] at balance
    have some : 0 < weigh (Stake.replies f) frame.stakes := by omega
    obtain ⟨stake, mem, counts⟩ := weigh_pos some
    cases stake with
    | reply g =>
      rw [one_pos counts] at mem
      exact ⟨[], by rw [show frame = .deliver (.future f) from Frame.holds_of_mem mem], by simp⟩
    | _ => cases counts

namespace State

variable {client : Client W} {workers : Nat} {world : W} {kept : List ObjectId}
  {threads : List (Code W)} {s s' : State W} {log : List (Beat W)} {thread : ThreadId}
  {choice : Choice}

section Direct

variable (run : Log client (State.start workers world kept threads) log s) {f : FutureId}

include run

theorem Log.deed_of_awaiting {d : FutureId} {r : Resolution W} (waits : .awaiting d r ∈ s.quests) :
    ∃ omitted, .argument d omitted r ∈ deeds client log := by
  induction run with
  | start =>
    rw [quests_start] at waits
    cases waits
  | @step log s s' thread choice run taken ih =>
    rcases mem_quests_of_step run.trace.recorded.numbered taken waits with earlier | made
    · obtain ⟨omitted, mem⟩ := ih earlier
      exact ⟨omitted, mem_deeds_left mem _⟩
    · rw [deeds_append, deeds_cons, deeds_nil]
      generalize (⟨s, thread⟩ : Beat W).deed client = δ at made ⊢
      cases δ with
      | argument future omitted resolution =>
        cases made
        exact ⟨omitted, List.mem_append_right _ List.mem_cons_self⟩
      | _ => cases made

theorem Log.argument_of_awaiting {d : FutureId} {r : Resolution W}
    (waits : .awaiting d r ∈ s.quests) (next : r.next.call? = some f) :
    .argument d (some f) ∈ events client log := by
  obtain ⟨omitted, made⟩ := run.deed_of_awaiting waits
  obtain ⟨e, mem, tells⟩ := run.event_of_deed made
  cases tells with
  | argument call => rwa [call, next] at mem

theorem Log.not_argument_of_handed (handed : .handed f ∈ events client log) {u : Future W}
    (found : s.shared.futures.get? f = some u) (r : Resolution W) :
    u.callback ≠ some (.argument r) := by
  intro callback
  have waits : .awaiting u.strand.id r ∈ s.quests :=
    List.mem_append_right _ (List.mem_flatMap.2
      ⟨u, Futures.mem_of_get? found, by simp [Future.quests, callback]⟩)
  rw [run.trace.recorded.numbered f u found] at waits
  obtain ⟨omitted, made⟩ := run.deed_of_awaiting waits
  obtain ⟨e, mem, tells⟩ := run.event_of_deed made
  cases tells with
  | argument call =>
    have spares := tally_pos_of_mem (n := Event.spares f) mem (one_self f)
    have none := run.trace.spares_of_handed f handed
    omega

theorem Log.argument_of_call (held : .call f ∈ s.shared.stakes) :
    ∃ d, .argument d (some f) ∈ events client log := by
  simp only [Shared.stakes, List.mem_append, List.mem_map, List.mem_flatMap] at held
  rcases held with (⟨item, _, same⟩ | ⟨g, _, same⟩) | ⟨u, mem, own⟩
  · cases item <;> cases same
  · obtain ⟨job, _, same⟩ := List.mem_map.1 same
    cases same
  · cases callback : u.callback with
    | none => simp [Future.stakes, callback] at own
    | some c =>
      cases c with
      | argument r =>
        simp only [Future.stakes, callback, Option.map_some, Option.getD_some, Callback.stakes,
          Resolution.stakes, List.mem_cons, reduceCtorEq, false_or] at own
        obtain ⟨g, next, same⟩ := Next.mem_stakes own
        cases same
        refine ⟨u.strand.id, run.argument_of_awaiting (List.mem_append_right _ ?_) next⟩
        exact List.mem_flatMap.2 ⟨u, mem, by simp [Future.quests, callback]⟩
      | _ => simp [Future.stakes, callback] at own

/-- What the scheduler holds for a call or its unit is held above the reply, until an
argument is computed. -/
theorem Log.direct :
    ∀ t ∈ s.threads, Stacked (Frame.Direct (events client log)) t.stack := by
  induction run with
  | start => exact stacked_start (fun f held => by cases held) fun _ _ f held => by cases held
  | @step log s s' thread choice run taken ih =>
    obtain ⟨acted⟩ := step_cases taken
    have tells := tells_of_acted acted
    have deed := deed_of_acted acted
    rw [events_append]
    refine stacked_step acted ih (fun _ _ h => h.mono _) (fun stacked rest => ?_)
      fun _ _ f held => by cases held
    refine stacked_append (fun a frame b split f held => ?_) rest
    have le := acted.move.enroute_le acted.actor.worker acted.below f
    rw [← acted.event] at le
    have some : 0 < weigh (Stake.enroute f) (Frame.stakesOf acted.progress.frames) := by
      rw [split, Frame.stakesOf_append, Frame.stakesOf_cons, weigh_append, weigh_append]
      omega
    have move := acted.move
    by_cases arises : 0 < (s.event client thread).arises f
    · rcases Nat.lt_or_ge 0 ((s.event client thread).begins f) with begins | none
      · rcases Event.of_begins begins with ⟨fault, context, event⟩ | spares
        · -- The reply comes with the call.
          rw [event] at tells
          generalize (⟨s, thread⟩ : Beat W).deed client = δ at tells deed
          generalize acted.progress = p at move split
          generalize acted.top = top at move deed
          cases tells with
          | opened =>
            cases move with
            | receive reply role next | pass reply held => cases deed
            | act moved =>
              obtain ⟨rfl, rfl⟩ := Frame.of_opened deed.symm
              cases moved
              refine .inl (List.mem_append_left _ ?_)
              exact mem_of_append_singleton split.symm fun same => by subst same; cases held
          | bare bare => cases bare
        · refine .inr (.inl ?_)
          rw [tally_append, events_cons, tally_cons]
          exact Nat.lt_of_lt_of_le spares (by simp [Beat.event])
      · refine .inr (.inr (.inr (List.mem_append_right _ (List.mem_singleton.2 ?_))))
        have lends : 0 < (s.event client thread).lends f := by
          rw [Event.arises] at arises
          omega
        exact (Event.of_lends lends).symm
    · by_cases shared : 0 < weigh (Stake.enroute f) s.shared.stakes
      · obtain ⟨d, mem⟩ := run.argument_of_call (Shared.call_of_enroute shared)
        exact .inr (.inr (.inl ⟨d, List.mem_append_left _ mem⟩))
      · have above : 0 < weigh (Stake.enroute f) (Frame.stakesOf acted.top) := by omega
        have lower : .deliver (.future f) ∈ acted.below ∨ Released (events client log) f := by
          generalize acted.progress = p at move
          generalize acted.top = top at move above stacked
          cases move with
          | receive reply role next =>
            have none : weigh (Stake.enroute f) (Frame.stakes (W := W) (.deliver reply)) = 0 := by
              cases reply <;> rfl
            rw [Frame.stakesOf_cons, weigh_append, none, Nat.zero_add, Frame.stakesOf_cons,
              Frame.stakesOf_nil, List.append_nil] at above
            exact stacked.2.1 f above
          | pass reply held =>
            cases reply <;> cases above
          | act moved => exact stacked.1 f (by simpa using above)
        exact lower.imp (List.mem_append_right _) fun released => released.append _

/-- Once the future of a call is handed over, nothing is held any more for it on its way. -/
theorem Log.enroute_of_handed (taken : s.step client thread choice = some s')
    (event : s.event client thread = .handed f) (unreleased : ¬ Released (events client log) f) :
    weigh (Stake.enroute f) s.stakes = 0 := by
  by_contra held
  obtain ⟨stake, mem, counts⟩ := weigh_pos (Nat.pos_of_ne_zero held)
  rcases List.mem_append.1 mem with inFrame | shared
  · obtain ⟨acted⟩ := step_cases taken
    obtain ⟨rest, top, only⟩ := acted.move.top_of_handed (acted.event.symm.trans event)
    obtain ⟨t, inThreads, mem⟩ := List.mem_flatMap.1 inFrame
    obtain ⟨frame, inStack, own⟩ := List.mem_flatMap.1 mem
    have pos := Nat.lt_of_lt_of_le counts (le_weigh (w := Stake.enroute f) own)
    obtain ⟨above, below, stack, direct, _⟩ := (run.direct t inThreads).find inStack
    have lower := (direct f pos).resolve_right unreleased
    -- So the future is about to be handed over twice.
    have other : .deliver (.future f) ∈ acted.others := by
      rw [acted.threads] at inThreads
      simp only [Acted.others, List.mem_append, List.mem_cons, List.mem_flatMap] at inThreads ⊢
      have inStack : .deliver (.future f) ∈ t.stack := by rw [stack]; simp [lower]
      rcases inThreads with before | rfl | after
      · exact .inl (.inl ⟨t, before, inStack⟩)
      · rw [acted.stack, top] at stack
        cases above with
        | nil =>
          rw [← (List.cons.inj stack).1] at pos
          cases pos
        | cons first others =>
          rw [List.cons_append, List.cons_append] at stack
          have inside : .deliver (.future f) ∈ rest ++ acted.below := by
            rw [(List.cons.inj stack).2]
            simp [lower]
          exact .inl (.inr ((List.mem_append.1 inside).resolve_left only))
      · exact .inr ⟨t, after, inStack⟩
    have le := acted.weigh_top_add_le other (Stake.replies f)
    have law := run.trace.reply_law f
    have once := run.trace.serves_spares_le f
    have reply : weigh (Stake.replies f)
        (Frame.stakes (W := W) (.deliver (.future f))) = 1 := by simp [Stake.replies]
    rw [top, Frame.stakesOf_cons, weigh_append, reply] at le
    omega
  · obtain ⟨d, argument⟩ := run.argument_of_call
      (Shared.call_of_enroute (Nat.lt_of_lt_of_le counts (le_weigh shared)))
    exact unreleased (.inr (.inl ⟨d, argument⟩))

end Direct
end State

/-! ## The order of sequential calls -/

/-- A sequential call of a receiver got its future, and the receiver's method began to run
for it. -/
def Reaches (client : Client W) (log : List (Beat W)) (r : ObjectId) (f : FutureId) : Prop :=
  ∃ (call : Call W) (metadata : Metadata) (args : List Value) (code : Code W),
    .opened f call metadata none ∈ deeds client log ∧ call.mode = .sequential ∧
      call.receiver = r ∧ .started ⟨.call r call.method args, f⟩ code ∈ deeds client log

/-- The method ran for one call, and the callback of that call returned, before the method
began to run for another. -/
def Precedes (client : Client W) (log : List (Beat W)) (r : ObjectId) (f f' : FutureId) : Prop :=
  ∃ (a b c : List Event) (g g' : GroupId),
    events client log = a ++ .turned r g f :: b ++ .turned r g' f' :: c ∧
      (∃ outcome, .ended f outcome ∈ b) ∧
      (∃ outcome failing, .notified f outcome failing ∈ b) ∧ .announced f ∈ b

theorem split_of_mem {α : Type} {l : List α} {x y : α} (hx : x ∈ l) (hy : y ∈ l) (ne : x ≠ y) :
    (∃ a b c, l = a ++ x :: b ++ y :: c) ∨ ∃ a b c, l = a ++ y :: b ++ x :: c := by
  obtain ⟨a, b, rfl⟩ := List.append_of_mem hx
  rcases List.mem_append.1 hy with before | after
  · obtain ⟨a, a', rfl⟩ := List.append_of_mem before
    exact .inr ⟨a, a', b, rfl⟩
  · obtain ⟨b, c, rfl⟩ := List.append_of_mem ((List.mem_cons.1 after).resolve_left ne.symm)
    exact .inl ⟨a, b, c, by simp⟩

theorem not_sublist_of_nodup {α : Type} {l : List α} {x y : α} (nodup : l.Nodup)
    (order : [x, y].Sublist l) : ¬ [y, x].Sublist l := fun other => by
  obtain ⟨a, b, rfl, hx, hy⟩ := List.cons_sublist_iff.1 order
  obtain ⟨c, d, same, hy', hx'⟩ := List.cons_sublist_iff.1 other
  have apart := (List.nodup_append.1 nodup).2.2
  have apart' := (List.nodup_append.1 (same ▸ nodup)).2.2
  rcases List.prefix_or_prefix_of_prefix (List.prefix_append a b)
    (same ▸ List.prefix_append c d) with first | second
  · exact apart' x (first.subset hx) x (by simpa using hx') rfl
  · exact apart y (second.subset hy') y (by simpa using hy) rfl

namespace State

variable {client : Client W} {workers : Nat} {world : W} {kept : List ObjectId}
  {threads : List (Code W)} {s : State W} {log : List (Beat W)}

section Order

variable (run : Log client (State.start workers world kept threads) log s) {r : ObjectId}
  {f f' : FutureId}

include run

theorem Log.turned_of_reaches (reached : Reaches client log r f) :
    ∃ g, .turned r g f ∈ events client log := by
  obtain ⟨call, metadata, args, code, opened, mode, rfl, started⟩ := reached
  obtain ⟨p, bound, same⟩ := run.vouched.deeds _ started
  have own : p.future = f := congrArg Job.future same
  have place := (run.place_of_sequential opened mode bound own (congrArg Job.task same)).1
  obtain ⟨e, mem, tells⟩ := run.event_of_deed started
  have runs : 0 < e.runs p.future := by
    rw [own]
    cases tells <;> simp [Event.runs]
  have begins := run.runs_where_bound bound mem runs
  rw [place, own] at begins
  obtain ⟨g, rfl⟩ := begins
  exact ⟨g, mem⟩

theorem Log.appends_of_reaches (reached : Reaches client log r f) :
    f ∈ appends r (events client log) := by
  obtain ⟨g, turned⟩ := run.turned_of_reaches reached
  exact (run.trace.starts_sublist r).subset (mem_starts turned)

theorem Log.not_claimed_of_reaches (reached : Reaches client log r f) (context : List FutureId) :
    .claimed f true context ∉ events client log := fun claimed => by
  obtain ⟨call, metadata, args, code, opened, mode, rfl, started⟩ := reached
  obtain ⟨p, bound, same⟩ := run.vouched.deeds _ started
  have own : p.future = f := congrArg Job.future same
  have asker := (run.place_of_sequential opened mode bound own (congrArg Job.task same)).2
  obtain ⟨e, mem, tells⟩ := run.event_of_deed bound
  cases tells with
  | bound =>
    rw [own, asker] at mem
    have both := add_le_tally (n := Event.claims f) claimed mem (by simp [Asker.isClient])
    have once := run.trace.claims_le f
    simp only [Event.claims, one_self] at both
    omega

theorem Log.precedes_of_split (reached : Reaches client log r f) {a b c : List Event}
    {g g' : GroupId}
    (split : events client log = a ++ .turned r g f :: b ++ .turned r g' f' :: c) :
    [f, f'].Sublist (appends r (events client log)) ∧ Precedes client log r f f' := by
  have untaken : ¬ Taken (events client log) f := fun ⟨_, context, claimed⟩ =>
    run.not_claimed_of_reaches reached context claimed
  obtain ⟨ended, callback⟩ := run.trace.turn_after_turn split
  refine ⟨?_, a, b, c, g, g', split, ended, callback untaken⟩
  refine List.Sublist.trans ?_ (run.trace.starts_sublist r)
  rw [split, starts_append]
  have first : f ∈ starts r (a ++ .turned r g f :: b) :=
    mem_starts (List.mem_append_right a List.mem_cons_self)
  have second : f' ∈ starts r (.turned r g' f' :: c) := mem_starts List.mem_cons_self
  exact List.cons_sublist_iff.2 ⟨_, _, rfl, first, List.singleton_sublist.2 second⟩

/-- A call none of whose arguments was computed has joined its receiver's lane when its
future is handed over. -/
theorem Log.appends_of_handed {before after : List (Beat W)} {beat : Beat W}
    (eq : log = before ++ beat :: after) (handed : beat.event client = .handed f)
    (reached : Reaches client log r f)
    (given : ∀ d, .argument d (some f) ∉ events client before) :
    f ∈ appends r (events client before) := by
  have onLane := run.appends_of_reaches reached
  have unclaimed := run.not_claimed_of_reaches reached
  have trace := run.trace
  obtain ⟨earlier, choice, s', taken, _⟩ := (eq ▸ run).split
  have all : events client log = events client before ++ events client (beat :: after) := by
    rw [eq, events_append]
  have unlent : tally (Event.lends f) (events client log) = 0 := by
    by_contra lent
    obtain ⟨e, mem, lends⟩ := tally_pos (Nat.pos_of_ne_zero lent)
    obtain ⟨context, claimed⟩ := trace.claimed_of_counted (Event.of_lends lends ▸ mem)
    exact unclaimed context claimed
  have opens : 0 < tally (Event.opens f) (events client log) := by
    obtain ⟨call, metadata, _, _, opened, _⟩ := reached
    obtain ⟨e, mem, tells⟩ := run.event_of_deed opened
    cases tells
    exact tally_pos_of_mem mem (one_self f)
  have queues := Nat.le_trans (List.count_pos_iff.2 onLane) (count_appends_le r f _)
  have once := trace.serves_spares_le f
  have law := trace.enroute_law f
  simp only [Event.tally_arises, tally_add, all, tally_append] at law unlent opens queues once
  -- The call was made before its future was handed over.
  have served : 0 < tally (Event.serves f) (events client before) := by
    have law := (earlier.trace.step taken).reply_law f
    rw [show beat.s.event client beat.thread = .handed f from handed] at law
    simp only [tally_append, tally_cons, tally_nil, Event.hands, Event.serves, one_self] at law
    omega
  have le := tally_le_tally (Event.opens_le_serves f) (events client (beat :: after))
  have none : weigh (Stake.enroute f) beat.s.stakes = 0 := by
    refine earlier.enroute_of_handed taken handed ?_
    rintro (spares | ⟨d, argument⟩ | counted)
    · omega
    · exact given d argument
    · have lends := tally_pos_of_mem (n := Event.lends f) counted (one_self f)
      omega
  have law' := earlier.trace.enroute_law f
  rw [Event.tally_arises, tally_add, tally_add, tally_add, tally_add, none] at law'
  -- What ended its way put it on the lane, for nothing else did in the whole run.
  have queued : 0 < tally (Event.queues f) (events client before) := by omega
  obtain ⟨group, took, appended⟩ := Trace.of_mem_appends onLane
  obtain ⟨e, mem, pos⟩ := tally_pos queued
  have same := eq_of_tally_le_one (trace.queues_le f) appended
    (all ▸ List.mem_append_left _ mem) (by simp [Event.queues]) pos
  exact List.mem_filterMap.2 ⟨.appended r group f took, same ▸ mem, if_pos rfl⟩

/-- Two sequential calls of one receiver for which the receiver's method runs.  The method
runs for the one that joined the lane first, and the callback of that call returns, before
the method runs for the other.  If a call is made after another one has returned, and none
of the other one's arguments was computed until then, the other one is the first. -/
theorem Log.joins (reached : Reaches client log r f) (reached' : Reaches client log r f') :
    (f ≠ f' →
      ([f, f'].Sublist (appends r (events client log)) ∧ Precedes client log r f f') ∨
      ([f', f].Sublist (appends r (events client log)) ∧ Precedes client log r f' f)) ∧
    (∀ before beat after, log = before ++ beat :: after → beat.event client = .handed f →
      (∀ fault context, .opened f' fault context ∉ events client before) →
      (∀ d, .argument d (some f) ∉ events client before) → Precedes client log r f f') := by
  have either (ne : f ≠ f') :
      ([f, f'].Sublist (appends r (events client log)) ∧ Precedes client log r f f') ∨
      ([f', f].Sublist (appends r (events client log)) ∧ Precedes client log r f' f) := by
    obtain ⟨g, turned⟩ := run.turned_of_reaches reached
    obtain ⟨g', turned'⟩ := run.turned_of_reaches reached'
    rcases split_of_mem turned turned' (by simp [ne]) with ⟨a, b, c, split⟩ | ⟨a, b, c, split⟩
    · exact .inl (run.precedes_of_split reached split)
    · exact .inr (run.precedes_of_split reached' split)
  refine ⟨either, fun before beat after eq handed later given => ?_⟩
  have first := run.appends_of_handed eq handed reached given
  have onLane' := run.appends_of_reaches reached'
  have all : appends r (events client log) =
      appends r (events client before) ++ appends r (events client (beat :: after)) := by
    rw [eq, events_append, appends_append]
  obtain ⟨earlier, _⟩ := (eq ▸ run).split
  have absent : f' ∉ appends r (events client before) := fun mem => by
    obtain ⟨p, bound, own, _⟩ := earlier.bound_of_appends mem
    obtain ⟨e, claimed, tells⟩ := earlier.event_of_deed bound
    have claims : 0 < tally (Event.claims f') (events client before) := by
      cases tells
      exact tally_pos_of_mem claimed (by rw [own]; exact one_self f')
    obtain ⟨u, there, _⟩ := earlier.trace.exists_record_of_claims f' claims
    obtain ⟨call, metadata, _, _, opened, _⟩ := reached'
    obtain ⟨e, mem, tells⟩ := earlier.event_of_deed
      ((eq ▸ run).opened_before (eq ▸ opened) (by rw [there]; rfl))
    cases tells
    exact later _ _ mem
  have second : f' ∈ appends r (events client (beat :: after)) := by
    rw [all] at onLane'
    exact (List.mem_append.1 onLane').resolve_left absent
  have order : [f, f'].Sublist (appends r (events client log)) :=
    all ▸ List.cons_sublist_iff.2 ⟨_, _, rfl, first, List.singleton_sublist.2 second⟩
  have nodup : (appends r (events client log)).Nodup := List.nodup_iff_count_le_one.2 fun g =>
    Nat.le_trans (count_appends_le r g _) (run.trace.queues_le g)
  rcases either fun same => absent (same ▸ first) with ⟨_, precedes⟩ | ⟨other, _⟩
  · exact precedes
  · exact absurd other (not_sublist_of_nodup nodup order)

end Order

/-! ## Two calls -/

def sequentially (args : List Value) (callback : Outcome → Code Unit)
    (next : FutureId → Code Unit) : Code Unit :=
  .invoke .sequential { receiver := some 1, method := some "m", args } callback
    (Sample.withFuture next)

def twoCalls (first second : List Value) : Code Unit :=
  sequentially first (fun _ => Sample.done) fun _ =>
    sequentially second (fun _ => Sample.done) fun _ => Sample.done

def twoCallsStart (first second : List Value) : State Unit :=
  State.start 1 () [1] [twoCalls first second]

/-- The client makes both calls before the worker does anything. -/
def twoCallsTurns : List ThreadId := List.replicate 60 1 ++ List.replicate 80 0

def twoCallsLog (first second : List Value) : List (Beat Unit) :=
  (twoCallsStart first second).beats (Sample.client Sample.value) twoCallsTurns

def twoCallsEnd (first second : List Value) : State Unit :=
  ((twoCallsStart first second).replay (Sample.client Sample.value) twoCallsTurns).2

def oneOfTwo (args : List Value) : Call Unit where
  mode := .sequential
  receiver := 1
  method := "m"
  invocation := { receiver := some 1, method := some "m", args }
  callback _ := Sample.done

theorem not_opened {f : FutureId} {history : List Event} (none : tally (Event.opens f) history = 0)
    (fault : Option Panic) (context : List FutureId) : .opened f fault context ∉ history :=
  fun mem => by
    have opens := tally_pos_of_mem (n := Event.opens f) mem (one_self f)
    omega

theorem not_argument {f : FutureId} {history : List Event}
    (none : some f ∉ history.map Event.argumentOf) (d : FutureId) :
    .argument d (some f) ∉ history := fun mem => none (List.mem_map.2 ⟨_, mem, rfl⟩)

/-- The first call gives its argument, so it is made first. -/
theorem joins_twoCalls :
    Precedes (Sample.client Sample.value) (twoCallsLog [.int 5] []) 1 1 2 := by
  have run : Log (Sample.client Sample.value) (twoCallsStart [.int 5] [])
      (twoCallsLog [.int 5] []) (twoCallsEnd [.int 5] []) := log_beats _ _ _
  have first : Reaches (Sample.client Sample.value) (twoCallsLog [.int 5] []) 1 1 :=
    ⟨oneOfTwo [.int 5], .ofMethod "Sample" "m", [.int 5], .finish (.ok (.int 5)),
      List.mem_of_getElem? (i := 3) rfl, rfl, rfl, List.mem_of_getElem? (i := 39) rfl⟩
  have second : Reaches (Sample.client Sample.value) (twoCallsLog [.int 5] []) 1 2 :=
    ⟨oneOfTwo [], .ofMethod "Sample" "m", [.int 7], .finish (.ok (.int 7)),
      List.mem_of_getElem? (i := 22) rfl, rfl, rfl, List.mem_of_getElem? (i := 65) rfl⟩
  have bound : 18 < (twoCallsLog [.int 5] []).length := by decide +kernel
  have split : twoCallsLog [.int 5] [] = (twoCallsLog [.int 5] []).take 18 ++
      (twoCallsLog [.int 5] [])[18] :: (twoCallsLog [.int 5] []).drop 19 := by
    rw [List.getElem_cons_drop, List.take_append_drop]
  exact (run.joins first second).2 _ _ _ split rfl (not_opened (by decide +kernel))
    (not_argument (by decide +kernel))

/-- The first call leaves its argument out, and returns before the second is made.  The
method runs for the second call first. -/
theorem order_not_kept :
    Log (Sample.client Sample.value) (twoCallsStart [] [.int 5]) (twoCallsLog [] [.int 5])
      (twoCallsEnd [] [.int 5]) ∧
    (∃ before beat after, twoCallsLog [] [.int 5] = before ++ beat :: after ∧
      beat.event (Sample.client Sample.value) = .handed 1 ∧
      ∀ fault context, .opened 3 fault context ∉ events (Sample.client Sample.value) before) ∧
    Reaches (Sample.client Sample.value) (twoCallsLog [] [.int 5]) 1 1 ∧
    Reaches (Sample.client Sample.value) (twoCallsLog [] [.int 5]) 1 3 ∧
    ¬ Precedes (Sample.client Sample.value) (twoCallsLog [] [.int 5]) 1 1 3 := by
  refine ⟨log_beats _ _ _, ?_, ?_, ?_, ?_⟩
  · have bound : 17 < (twoCallsLog [] [.int 5]).length := by decide +kernel
    refine ⟨(twoCallsLog [] [.int 5]).take 17, (twoCallsLog [] [.int 5])[17],
      (twoCallsLog [] [.int 5]).drop 18, ?_, rfl, not_opened (by decide +kernel)⟩
    rw [List.getElem_cons_drop, List.take_append_drop]
  · exact ⟨oneOfTwo [], .ofMethod "Sample" "m", [.int 7], .finish (.ok (.int 7)),
      List.mem_of_getElem? (i := 3) rfl, rfl, rfl, List.mem_of_getElem? (i := 65) rfl⟩
  · exact ⟨oneOfTwo [.int 5], .ofMethod "Sample" "m", [.int 5], .finish (.ok (.int 5)),
      List.mem_of_getElem? (i := 21) rfl, rfl, rfl, List.mem_of_getElem? (i := 55) rfl⟩
  · rintro ⟨a, b, c, g, g', split, _⟩
    have order : starts 1 (events (Sample.client Sample.value) (twoCallsLog [] [.int 5])) =
        [3, 1] := by decide +kernel
    rw [split, starts_append] at order
    have first : 1 ∈ starts 1 (a ++ .turned 1 g 1 :: b) :=
      mem_starts (List.mem_append_right a List.mem_cons_self)
    have second : 3 ∈ starts 1 (.turned 1 g' 3 :: c) := mem_starts List.mem_cons_self
    have sublist : [1, 3].Sublist [3, 1] :=
      order ▸ List.cons_sublist_iff.2 ⟨_, _, rfl, first, List.singleton_sublist.2 second⟩
    revert sublist
    decide

end State
end Strands
