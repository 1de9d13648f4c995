/-
A graceful stop comes to its report.

`Log.amid` follows a stop through a run in which any threads act: until it reports, its
frame is on its thread's stack, where its notes say that it stands, and the calls of
listeners that it scheduled were counted as work or are still being placed on top of it.
So the report is that of an account with nothing left to be done, and once no work is in
flight the stop is not kept waiting: `Log.stops`.

A listener's future is known to nobody but the stop.  Its only unit is the one that the
stop scheduled, which runs once, where it was to be placed, and what it ends with is what
the stop hears: `Log.called_of_heard`.
-/
import Strands.Proofs.StopNotes
import Strands.Proofs.Placed
import Strands.Proofs.Resolving
import Strands.Proofs.Turns

namespace Strands

variable {W : Type}

/-- The note of a step that a thread takes at a depth of its stack. -/
def Beat.note (client : Client W) (thread : ThreadId) (depth : Nat) (beat : Beat W) :
    Option (Note W) :=
  if beat.thread = thread then
    match beat.s.stackOf thread with
    | frame :: below => if below.length = depth then frame.note client beat.s.shared else none
    | [] => none
  else none

def notesOf (client : Client W) (thread : ThreadId) (depth : Nat) (log : List (Beat W)) :
    List (Note W) :=
  log.filterMap (Beat.note client thread depth)

section

variable (client : Client W) (thread : ThreadId) (depth : Nat)

theorem notesOf_append (a b : List (Beat W)) :
    notesOf client thread depth (a ++ b) =
      notesOf client thread depth a ++ notesOf client thread depth b :=
  List.filterMap_append

theorem notesOf_one (beat : Beat W) :
    notesOf client thread depth [beat] = (beat.note client thread depth).toList := by
  cases note : beat.note client thread depth <;> simp [notesOf, note]

end

def Placing.Handled (history : List Event) (above : List (Frame W)) (p : Placing W) : Prop :=
  (∃ byClient, .counted p.future byClient ∈ history) ∨ .claim p ∈ above ∨ .enter p ∈ above

/-- What is counted stays counted, and what is being placed may be so among other frames. -/
theorem Placing.Handled.later {history : List Event} {above above' : List (Frame W)}
    {p : Placing W} (handled : p.Handled history above) (e : Event)
    (claims : .claim p ∈ above → .claim p ∈ above')
    (enters : .enter p ∈ above → .enter p ∈ above') : p.Handled (history ++ [e]) above' := by
  rcases handled with ⟨byClient, counted⟩ | claim | enter
  · exact .inl ⟨byClient, List.mem_append_left _ counted⟩
  · exact .inr (.inl (claims claim))
  · exact .inr (.inr (enters enter))

inductive Amid (client : Client W) (shutsDown : Bool) (below : List (Frame W))
    (history : List Event) (ns : List (Note W)) (stack : List (Frame W)) : Prop
  | intro (above : List (Frame W)) (base : Frame W) :
      stack = above ++ base :: below → Standing client shutsDown ns base →
      (∀ p, .scheduled p ∈ ns → p.Handled history above) →
      Amid client shutsDown below history ns stack

/-- The stop method of a listener was called once and without arguments, on the free lane if
both the type and the method are isolated and else in a turn of the listener's group, and
what it came to is what was heard. -/
structure Called (client : Client W) (log : List (Beat W)) (s : State W) (type : ObjectType W)
    (h : Heard) : Prop where
  bound : .bound (stopPlacing h.listener (type.lane stopMethod) h.future) ∈ deeds client log
  executed : ∃ result, Executed client log s h.future (.stop h.listener)
    (fun strand => client.call h.listener strand "gracefulStop" []) result ∧
    h.outcome = (Outcome.ofEnd result).map fun _ => .nil
  free : .started h.future ∈ events client log ↔
    type.isolated = true ∧ type.isMethodIsolated stopMethod = true
  onLane : (∃ group, .turned h.listener group h.future ∈ events client log) ↔
    ¬ (type.isolated = true ∧ type.isMethodIsolated stopMethod = true)

theorem ObjectType.placement_eq_free (type : ObjectType W) (method : String)
    (receiver : ObjectId) : (type.lane method).placement receiver = .free ↔
      type.isolated = true ∧ type.isMethodIsolated method = true := by
  cases whole : type.isolated <;> cases own : type.isMethodIsolated method <;>
    simp [lane, isolation, Isolation.lane, Isolation.isIsolated, Lane.placement, whole, own]

/-- A stop found the handlers of an account in the registry when it took them, and the
listeners when it read them, which is what it did next. -/
def Account.Found (client : Client W) (thread : ThreadId) (depth : Nat) (log : List (Beat W))
    (a : Account W) : Prop :=
  ∃ idle take pause read rest, log = idle ++ take :: (pause ++ read :: rest) ∧
    notesOf client thread depth idle = [] ∧ notesOf client thread depth pause = [] ∧
    take.s.shared.registry.handlers = a.handlers ∧ read.s.shared.registry.listeners = a.listeners

theorem Account.asked_of_request {a : Account W} {request : ObjectId × FutureId}
    (mem : request ∈ a.requests) : ∃ type, .asked request.1 type request.2 ∈ a.visits ∧
      .scheduled (stopPlacing request.1 (type.lane stopMethod) request.2) ∈ a.notes := by
  obtain ⟨visit, inVisits, eq⟩ := List.mem_filterMap.1 mem
  cases visit with
  | asked l type f =>
    cases eq
    refine ⟨type, inVisits, ?_⟩
    refine List.mem_append_left _ (List.mem_append_right _ (List.mem_flatMap.2 ⟨_, inVisits, ?_⟩))
    simp [Visit.notes]
  | _ => cases eq

/-! ## Notes and deeds -/

section

variable {client : Client W} {thread : ThreadId} {depth : Nat} {beat : Beat W} {note : Note W}

/-- A note is that of the innermost frame of the thread that acts. -/
theorem Beat.frame_of_note (noted : beat.note client thread depth = some note) :
    beat.thread = thread ∧ ∃ frame below, beat.s.stackOf thread = frame :: below ∧
      below.length = depth ∧ frame.note client beat.s.shared = some note := by
  unfold Beat.note at noted
  split at noted
  · rename_i own
    split at noted
    · rename_i frame below stack
      split at noted
      · rename_i deep
        exact ⟨own, frame, below, stack, deep, noted⟩
      · cases noted
    · cases noted
  · cases noted

theorem Beat.note_eq {frame : Frame W} {below : List (Frame W)}
    (stack : beat.s.stackOf beat.thread = frame :: below) :
    beat.note client beat.thread below.length = frame.note client beat.s.shared := by
  simp [Beat.note, stack]

theorem Beat.note_of_deep (deep : depth + 1 < (beat.s.stackOf thread).length) :
    beat.note client thread depth = none := by
  unfold Beat.note
  split
  · split
    · rename_i eq
      rw [eq, List.length_cons] at deep
      exact if_neg (by omega)
    · rfl
  · rfl

theorem Beat.shows (noted : beat.note client thread depth = some note) :
    note.Shows beat.s.shared (beat.deed client) := by
  obtain ⟨rfl, frame, below, stack, _, note⟩ := Beat.frame_of_note noted
  unfold State.stackOf at stack
  cases found : beat.s.threads[beat.thread]? with
  | none => rw [found] at stack; cases stack
  | some t =>
    rw [found] at stack
    simp only [Beat.deed, found]
    rw [show t.stack = frame :: below from stack]
    exact Frame.shows note

theorem asked_of_scheduled {log : List (Beat W)} {p : Placing W}
    (mem : .scheduled p ∈ notesOf client thread depth log) :
    .asked p ∈ deeds client log ∧ ∃ listener lane, p = stopPlacing listener lane p.future := by
  obtain ⟨beat, inLog, noted⟩ := List.mem_filterMap.1 mem
  obtain ⟨deed, form⟩ := Beat.shows noted
  exact ⟨List.mem_map.2 ⟨beat, inLog, deed⟩, form⟩

theorem Account.scheduled_of_request {log : List (Beat W)} {a : Account W} {took read : Note W}
    (told : notesOf client thread depth log = took :: read :: a.notes)
    {request : ObjectId × FutureId} (mem : request ∈ a.requests) :
    ∃ type, .asked request.1 type request.2 ∈ a.visits ∧
      .scheduled (stopPlacing request.1 (type.lane stopMethod) request.2) ∈
        notesOf client thread depth log := by
  obtain ⟨type, inVisits, scheduled⟩ := a.asked_of_request mem
  rw [told]
  exact ⟨type, inVisits, List.mem_cons_of_mem _ (List.mem_cons_of_mem _ scheduled)⟩

theorem Account.found_of_told {log : List (Beat W)} {a : Account W}
    (told : notesOf client thread depth log = .took a.handlers :: .read a.listeners :: a.notes) :
    a.Found client thread depth log := by
  obtain ⟨idle, take, later, rfl, idle', took, told⟩ := List.filterMap_eq_cons_iff.1 told
  obtain ⟨pause, read, rest, rfl, pause', known, _⟩ := List.filterMap_eq_cons_iff.1 told
  exact ⟨idle, take, pause, read, rest, rfl, List.filterMap_eq_nil_iff.2 idle',
    List.filterMap_eq_nil_iff.2 pause', Beat.shows took, Beat.shows known⟩

end

/-! ## Moves of the thread -/

section

variable {client : Client W}

theorem Frame.entered_or_rejected (client : Client W) (worker : Bool) (s : Shared W)
    (below : List (Frame W)) (p : Placing W) : (claimStep s p).frames = [.enter p] ∨
      (Frame.claim p).event client worker s below = .rejected p.future p.asker.isClient := by
  cases found : s.futures.get? p.future with
  | none => exact .inr (by simp [Frame.event, found])
  | some u =>
    obtain ⟨strand, returnType, state, callback, notified, claimed, kept⟩ := u
    cases claimed with
    | true => exact .inr (by simp [Frame.event, found])
    | false => exact .inl (by simp [claimStep, found])

/-- While a stop is under way, its thread acts above it, answers the code that it runs, or
takes a step of the stop's own. -/
theorem Standing.moves {shutsDown : Bool} {ns : List (Note W)} {base : Frame W}
    (standing : Standing client shutsDown ns base) {sight : Sight} {choice : Choice}
    {shared : Shared W} {top : List (Frame W)} {p : Progress W}
    (move : Move client sight choice shared top p) {above below rest : List (Frame W)}
    (eq : above ++ base :: below = top ++ rest) :
    (∃ above', above = top ++ above' ∧ rest = above' ++ base :: below) ∨
    (∃ reply role next, above = [.deliver reply] ∧ base = .waiting role next ∧ rest = below ∧
      p.frames = [.running role (next reply)]) ∨
    above = [] ∧ top = [base] ∧ rest = below ∧ base.step client sight choice shared = some p :=
  move.splits standing.not_deliver (fun held same => by subst same; cases standing) eq

end

namespace State

variable {client : Client W} {workers : Nat} {world : W} {kept : List ObjectId}
  {threads : List (Code W)} {s : State W} {history : List Event} {log : List (Beat W)}

/-! ## The futures of listeners -/

namespace Trace

section

variable (trace : Trace client (State.start workers world kept threads) history s)
  {f : FutureId} (asked : .asked f ∈ history)

include trace asked

theorem not_failed_of_asked {outcome : Outcome} : ¬ Failed history f outcome := fun failed => by
  obtain ⟨fault, context, mem⟩ := trace.opened_of_failed failed
  cases trace.eq_of_births f asked mem (one_self f) (one_self f)

theorem not_takes_of_asked : tally (Event.takes f) history = 0 := by
  by_contra taken
  have none := trace.spares_of_handed f (trace.hands_of_takes f (Nat.pos_of_ne_zero taken))
  have spares := tally_pos_of_mem (n := Event.spares f) asked (one_self f)
  omega

/-- One thing at a time is under way for a listener's call, and only until its outcome. -/
theorem course_of_asked : weigh (fun stake => stake.chain f + stake.work f) s.stakes +
    tally (fun e => e.notifies f + e.ignores f + e.rejects f) history ≤ 1 := by
  have law := trace.course_law f
  have takes := trace.not_takes_of_asked asked
  have births := trace.births_le f
  have begins := tally_le_tally (Event.begins_le_births f) history
  rw [tally_add (Event.takes f)] at law
  omega

theorem not_rejected_of_asked : .rejected f false ∉ history := fun rejected => by
  have rejects := tally_pos_of_mem (n := Event.rejects f) rejected (one_self f)
  have claims := trace.claims_of_rejects f rejects
  have course := trace.course_of_asked asked
  have work := trace.work_law f
  simp only [weigh_add, tally_add] at course work
  omega

end

end Trace

/-! ## Following a stop -/

/-- The call of a listener that is being placed is bound, and then counted. -/
theorem handled_step {s' : State W} {thread : ThreadId} {choice : Choice}
    (trace : Trace client (State.start workers world kept threads) history s)
    (taken : s.step client thread choice = some s') (acted : Acted client s s' thread choice)
    {p : Placing W} (asked : .asked p.future ∈ history) (own : p.asker = .nobody)
    {rest : List (Frame W)} (handled : p.Handled history (acted.top ++ rest)) :
    p.Handled (history ++ [s.event client thread]) (acted.progress.frames ++ rest) := by
  have unrejected : s.event client thread ≠ .rejected p.future false := fun rejected =>
    (trace.step taken).not_rejected_of_asked (List.mem_append_left _ asked)
      (by rw [rejected]; simp)
  have event := acted.event
  have move := acted.move
  rcases handled with ⟨byClient, counted⟩ | claim | enter
  · exact .inl ⟨byClient, List.mem_append_left _ counted⟩
  · rcases List.mem_append.1 claim with top | below
    · generalize acted.progress = q at move ⊢
      generalize acted.top = frames at move event top
      cases move with
      | receive reply role next | pass reply held => simp at top
      | act moved =>
        obtain rfl := List.mem_singleton.1 top
        cases moved
        rcases Frame.entered_or_rejected client acted.actor.worker s.shared acted.below p with
          entered | rejected
        · exact .inr (.inr (by rw [entered]; simp))
        · rw [own] at rejected
          exact absurd (event.trans rejected) unrejected
    · exact .inr (.inl (List.mem_append_right _ below))
  · rcases List.mem_append.1 enter with top | below
    · generalize acted.progress = q at move ⊢
      generalize acted.top = frames at move event top
      cases move with
      | receive reply role next | pass reply held => simp at top
      | act moved =>
        obtain rfl := List.mem_singleton.1 top
        refine .inl ⟨p.asker.isClient, List.mem_append_right _ ?_⟩
        rw [event]
        exact List.mem_singleton_self _
    · exact .inr (.inr (List.mem_append_right _ below))

/-- A stop stays on its thread's stack until it reports. -/
theorem Log.amid {before later : List (Beat W)} {s₀ : State W} {thread : ThreadId}
    {shutsDown : Bool} {below : List (Frame W)}
    (run : Log client (State.start workers world kept threads) before s₀)
    (called : s₀.stackOf thread = .takeHandlers shutsDown :: below)
    (next : Log client s₀ later s)
    (unreturned : ∀ report, .reported report ∉ notesOf client thread below.length later) :
    Amid client shutsDown below (events client (before ++ later))
      (notesOf client thread below.length later) (s.stackOf thread) := by
  induction next with
  | start => exact .intro [] _ called .take fun p mem => by cases mem
  | @step later s s' actor choice next taken ih =>
    rw [notesOf_append, notesOf_one] at unreturned ⊢
    obtain ⟨above, base, stack, standing, handled⟩ := ih fun report mem =>
      unreturned report (List.mem_append_left _ mem)
    have trace := (run.append next).trace
    obtain ⟨acted⟩ := step_cases taken
    rw [← List.append_assoc, events_append]
    by_cases same : actor = thread
    · subst same
      have stack' := acted.stackOf_eq'
      rcases standing.moves acted.move (stack.symm.trans acted.stackOf_eq) with
        ⟨above', eq, rest⟩ | ⟨reply, role, next', eq, rfl, rest, frames⟩ |
        ⟨rfl, top, rest, moved⟩
      · have quiet : Beat.note client actor below.length ⟨s, actor⟩ = none := by
          refine Beat.note_of_deep ?_
          rw [stack, eq]
          have pos := acted.move.length_pos
          simp only [List.length_append, List.length_cons]
          omega
        rw [quiet, Option.toList_none, List.append_nil]
        refine .intro (acted.progress.frames ++ above') base ?_ standing fun p mem => ?_
        · rw [stack', rest, List.append_assoc]
        · obtain ⟨asked, _, _, form⟩ := asked_of_scheduled mem
          refine handled_step trace taken acted ?_ (by rw [form]; rfl) (eq ▸ handled p mem)
          obtain ⟨e, inHistory, tells⟩ := next.event_of_deed asked
          cases tells
          exact mem_events_right _ inHistory
      · have quiet : Beat.note client actor below.length ⟨s, actor⟩ = none := by
          refine Beat.note_of_deep ?_
          rw [stack, eq]
          simp
        rw [quiet, Option.toList_none, List.append_nil]
        refine .intro [] _ ?_ (standing.answered reply) fun p mem => ?_
        · rw [stack', rest, frames]
          rfl
        · exact (handled p mem).later _ (by simp [eq]) (by simp [eq])
      · have noted : Beat.note client actor below.length ⟨s, actor⟩ = base.note client s.shared :=
          Beat.note_eq stack
        rw [noted] at unreturned ⊢
        rcases standing.step moved with ⟨above', base', frames, standing', placed⟩ |
          ⟨report, reported, _⟩
        · refine .intro above' base' ?_ standing' fun p mem => ?_
          · rw [stack', rest, frames, List.append_assoc]
            rfl
          · rcases List.mem_append.1 mem with earlier | new
            · exact (handled p earlier).later _ (by simp) (by simp)
            · exact .inr (.inl (placed p (Option.mem_toList.1 new)))
        · rw [reported] at unreturned
          exact absurd (List.mem_append_right _ (List.mem_singleton_self _)) (unreturned report)
    · have quiet : Beat.note client thread below.length ⟨s, actor⟩ = none := if_neg same
      rw [quiet, Option.toList_none, List.append_nil]
      refine .intro above base ?_ standing fun p mem => ?_
      · obtain ⟨frame, rest, eq⟩ : ∃ frame rest, above ++ base :: below = frame :: rest :=
          List.exists_cons_of_ne_nil (by simp)
        rw [eq] at stack ⊢
        exact acted.stackOf_other (Ne.symm same) stack
      · exact (handled p mem).later _ id id

/-! ## What is heard of a listener -/

section

variable (run : Log client (State.start workers world kept threads) log s)

include run

/-- The unit bound to a listener's future is the one that calls the listener. -/
theorem Log.placing_of_asked {p q : Placing W} (asked : .asked p ∈ deeds client log)
    (bound : .bound q ∈ deeds client log) (own : q.future = p.future) : q = p := by
  have trace := run.trace
  have once := trace.births_le p.future
  obtain ⟨e, mem, tells⟩ := run.event_of_deed asked
  cases tells with
  | asked =>
    rcases run.birth_of_bound bound with
      ⟨omitted, r, argument, _⟩ | ⟨fault, behalf, mem'⟩ | none | asked'
    · obtain ⟨e', mem', tells⟩ := run.event_of_deed argument
      cases tells
      rw [own] at mem'
      cases trace.eq_of_births _ mem mem' (one_self _) (one_self _)
    · rw [own] at mem'
      cases trace.eq_of_births _ mem mem' (one_self _) (one_self _)
    · rw [own] at none
      have spares := tally_pos_of_mem (n := Event.spares p.future) mem (one_self _)
      omega
    · have births {p' : Placing W} {e : Event} (tells : (Deed.asked p').Tells e) :
          0 < e.births p'.future := by
        cases tells
        exact Nat.lt_of_lt_of_eq Nat.one_pos (one_self _).symm
      have same := run.deed_unique once asked' asked (fun e tells => own ▸ births tells)
        fun e => births
      cases same
      rfl

theorem Log.outcome_of_heard {thread : ThreadId} {depth : Nat} {l : ObjectId} {f : FutureId}
    {outcome : Outcome} (heard : .heard l f outcome ∈ notesOf client thread depth log) :
    outcome ∈ outcomes f (events client log) := by
  obtain ⟨beat, inLog, noted⟩ := List.mem_filterMap.1 heard
  obtain ⟨before, after, rfl⟩ := List.append_of_mem inLog
  obtain ⟨earlier, _⟩ := run.split
  obtain ⟨u, found, state⟩ := Beat.shows noted
  have recorded := earlier.trace.recorded.outcomes f
  rw [found, Option.bind_some, state] at recorded
  rw [events_append, outcomes_append, recorded]
  exact List.mem_append_left _ (List.mem_singleton_self _)

/-- A unit that has ended began on the free lane if it was to be placed there, and else in
a turn of its receiver's group. -/
theorem Log.begun_of_ended {p : Placing W} (bound : .bound p ∈ deeds client log)
    {outcome : Outcome} (ended : .ended p.future outcome ∈ events client log) :
    (.started p.future ∈ events client log ↔ p.place = .free) ∧
    ∀ r, (∃ group, .turned r group p.future ∈ events client log) ↔ p.place = .group r := by
  have ends := tally_pos_of_mem (n := Event.ends p.future) ended (one_self _)
  have law := run.trace.unit_law p.future
  obtain ⟨e, mem, runs⟩ : ∃ e ∈ events client log, 0 < e.runs p.future := tally_pos (by omega)
  have begins := run.runs_where_bound bound mem runs
  have begins_of {e : Event} (mem : e ∈ events client log) (runs : 0 < e.runs p.future) :=
    run.runs_where_bound bound mem runs
  refine ⟨⟨fun started => ?_, fun free => ?_⟩, fun r => ⟨?_, fun onLane => ?_⟩⟩
  · have begins := begins_of started (by simp [Event.runs])
    cases place : p.place with
    | free => rfl
    | group r =>
      rw [place] at begins
      obtain ⟨group, eq⟩ := begins
      cases eq
  · rw [free] at begins
    exact (show e = _ from begins) ▸ mem
  · rintro ⟨group, turned⟩
    have begins := begins_of turned (by simp [Event.runs])
    cases place : p.place with
    | free =>
      rw [place] at begins
      cases (show Event.turned r group p.future = _ from begins)
    | group r' =>
      rw [place] at begins
      obtain ⟨group', eq⟩ := begins
      cases eq
      rfl
  · rw [onLane] at begins
    obtain ⟨group, rfl⟩ := begins
    exact ⟨group, mem⟩

/-- The stop method of a listener was called, and what it came to is what was heard. -/
theorem Log.called_of_heard (isOpen : ∀ futures, .closed futures ∉ events client log)
    {type : ObjectType W} {h : Heard}
    (asked : .asked (stopPlacing h.listener (type.lane stopMethod) h.future) ∈ deeds client log)
    (heard : h.outcome ∈ outcomes h.future (events client log)) : Called client log s type h := by
  obtain ⟨failing, notified⟩ := mem_outcomes.1 heard
  obtain ⟨e, askedEvent, tells⟩ := run.event_of_deed asked
  cases tells
  have ended : .ended h.future h.outcome ∈ events client log := by
    have trace := run.trace
    obtain ⟨before, after, eq⟩ := List.append_of_mem notified
    rw [eq] at trace
    obtain ⟨moment, frame, place, ⟨ended, _⟩ | ⟨refused, _⟩ | failed⟩ := trace.sound
    · rw [eq]
      exact List.mem_append_left _ ended
    · have refused : Refused (events client log) h.future := by
        rw [eq]
        exact refused.append
      exact absurd refused (run.trace.not_refused_of_open isOpen _)
    · have failed : Failed (events client log) h.future h.outcome := by
        rw [eq]
        exact failed.append
      exact absurd failed (run.trace.not_failed_of_asked askedEvent)
  obtain ⟨q, code, result, bound, own, _, hasCode, executed, conclusion⟩ :=
    run.unit_of_ended ended
  obtain rfl := run.placing_of_asked asked bound own
  cases hasCode
  obtain ⟨free, onLane⟩ := run.begun_of_ended bound ended
  have isolated := type.placement_eq_free stopMethod h.listener
  have grouped : (type.lane stopMethod).placement h.listener = .group h.listener ↔
      ¬ (type.lane stopMethod).placement h.listener = .free := by
    cases type.lane stopMethod <;> simp [Lane.placement]
  exact
    { bound
      executed := ⟨result, executed, conclusion⟩
      free := free.trans isolated
      onLane := (onLane h.listener).trans (grouped.trans (not_congr isolated)) }

end

/-! ## The report -/

section

variable {before during : List (Beat W)} {s₀ : State W} {thread : ThreadId} {shutsDown : Bool}
  {below : List (Frame W)}

/-- A stop that is to act can do so once no work is in flight. -/
theorem Log.can_go_on (run : Log client (State.start workers world kept threads) before s₀)
    (going : Log client s₀ during s)
    (amid : Amid client shutsDown below (events client (before ++ during))
      (notesOf client thread below.length during) (s.stackOf thread))
    (idle : s.shared.inFlight = 0) {frame : Frame W} (stack : s.stackOf thread = frame :: below)
    (own : frame.isClients = false) : ∃ s', s.step client thread = some s' := by
  obtain ⟨above, base, eq, standing, handled⟩ := amid
  have trace := (run.append going).trace
  rw [stack] at eq
  obtain ⟨rfl, rfl, _⟩ : above = [] ∧ base = frame ∧ below = below :=
    eq_of_depth eq.symm rfl
  have complete (a : Account W) (told : notesOf client thread below.length during = a.told [] [])
      (request : ObjectId × FutureId) (mem : request ∈ a.requests) : ∃ u outcome,
      s.shared.futures.get? request.2 = some u ∧ u.notified = true ∧ u.state = some outcome := by
    obtain ⟨type, _, inNotes⟩ := Account.scheduled_of_request told mem
    rcases handled _ inNotes with ⟨byClient, counted⟩ | claim | enter
    · obtain ⟨outcome, u, found, state, notified, _⟩ := trace.completed_of_backed idle counted
      exact ⟨u, outcome, found, notified, state⟩
    · cases claim
    · cases enter
  cases found : s.threads[thread]? with
  | none =>
    rw [State.stackOf, found] at stack
    cases stack
  | some t =>
    rw [State.stackOf, found] at stack
    obtain ⟨p, taken⟩ := Option.isSome_iff_exists.1 (standing.can_step
      (s := s.shared) own complete (s.sight thread t.worker) {})
    exact ⟨_, step_of_frame found stack standing.not_deliver taken⟩

theorem Log.called_of_told (run : Log client (State.start workers world kept threads) before s₀)
    (going : Log client s₀ during s) {a : Account W}
    (told : notesOf client thread below.length during =
      .took a.handlers :: .read a.listeners :: a.notes)
    (requests : a.requests = a.heard.map Heard.request)
    (isOpen : ∀ futures, .closed futures ∉ events client (before ++ during)) {h : Heard}
    (heard : h ∈ a.heard) : ∃ type, .asked h.listener type h.future ∈ a.visits ∧
      Called client (before ++ during) s type h := by
  have request : h.request ∈ a.requests := by
    rw [requests]
    exact List.mem_map_of_mem heard
  obtain ⟨type, inVisits, scheduled⟩ := Account.scheduled_of_request told request
  have whole := run.append going
  refine ⟨type, inVisits, whole.called_of_heard isOpen ?_ ?_⟩
  · exact mem_deeds_right _ (asked_of_scheduled scheduled).1
  · have inNotes : .heard h.listener h.future h.outcome ∈
        notesOf client thread below.length (before ++ during) := by
      rw [notesOf_append, told]
      refine List.mem_append_right _ (List.mem_cons_of_mem _ (List.mem_cons_of_mem _ ?_))
      exact List.mem_append_right _ (List.mem_map_of_mem (f := Heard.note) heard)
    exact whole.outcome_of_heard inNotes

/-- The step that reports leaves the report, beneath the shutdown if there is to be one. -/
theorem stackOf_of_reports {a : Account W} {notes : List (Note W)}
    (standing : Standing client shutsDown notes
      (.awaitListeners (a.stopping shutsDown [] [] [])))
    (stack : s.stackOf thread = .awaitListeners (a.stopping shutsDown [] [] []) :: below)
    {choice : Choice} {s' : State W} (taken : s.step client thread choice = some s') :
    s'.stackOf thread =
      (if shutsDown then [.shutdown] else []) ++ .deliver (.report a.report) :: below := by
  obtain ⟨acted⟩ := step_cases taken
  have split : [] ++ .awaitListeners (a.stopping shutsDown [] [] []) :: below =
      acted.top ++ acted.below := stack.symm.trans acted.stackOf_eq
  rcases standing.moves acted.move split with
    ⟨above', eq, _⟩ | ⟨_, _, _, eq, _⟩ | ⟨_, _, rest, moved⟩
  · have pos := acted.move.length_pos
    have none := congrArg List.length eq
    simp only [List.length_nil, List.length_append] at none
    omega
  · cases eq
  · have frames : acted.progress.frames =
        (if shutsDown then [.shutdown] else []) ++ [.deliver (.report a.report)] := by
      rw [← Option.some.inj moved]
      rfl
    rw [acted.stackOf_eq', rest, frames, List.append_assoc]
    rfl

/-- A graceful stop.  While it is under way it makes boundedly many notes, and once no work
is in flight nothing keeps it waiting but the code of its client.  When it reports, its
report is that of an account of all that it did: it ran the handlers that it found in the
registry, each once and in order, then asked the listeners that it found there for their
types, each once and in order, and scheduled the stop method of those that have one, and
then heard from all of these.  On a scheduler that is open, what it heard is what calling
the method came to. -/
theorem Log.stops (run : Log client (State.start workers world kept threads) before s₀)
    (called : s₀.stackOf thread = .takeHandlers shutsDown :: below)
    (going : Log client s₀ during s)
    (unreturned : ∀ report, .reported report ∉ notesOf client thread below.length during) :
    (∀ handlers listeners later,
      notesOf client thread below.length during = .took handlers :: .read listeners :: later →
      later.length ≤ 2 * handlers.length + 4 * listeners.length) ∧
    (s.shared.inFlight = 0 → ∀ frame, s.stackOf thread = frame :: below →
      frame.isClients = false → ∃ s', s.step client thread = some s') ∧
    ∀ report, (⟨s, thread⟩ : Beat W).note client thread below.length = some (.reported report) →
      (∀ choice s', s.step client thread choice = some s' → s'.stackOf thread =
        (if shutsDown then [.shutdown] else []) ++ .deliver (.report report) :: below) ∧
      ∃ a : Account W, a.Sound client ∧ a.Found client thread below.length during ∧
        notesOf client thread below.length during =
          .took a.handlers :: .read a.listeners :: a.notes ∧
        a.requests = a.heard.map Heard.request ∧ report = a.report ∧
        ((∀ futures, .closed futures ∉ events client (before ++ during)) →
          ∀ h ∈ a.heard, ∃ type, .asked h.listener type h.future ∈ a.visits ∧
            Called client (before ++ during) s type h) := by
  have amid := run.amid called going unreturned
  refine ⟨fun handlers listeners later eq => ?_, fun idle frame => run.can_go_on going amid idle,
    fun report reported => ?_⟩
  · obtain ⟨_, _, _, standing, _⟩ := amid
    exact standing.length_le eq
  · obtain ⟨above, base, stack, standing, handled⟩ := amid
    obtain ⟨_, frame, rest, stack', deep, note⟩ := Beat.frame_of_note reported
    obtain ⟨rfl, rfl, rfl⟩ : above = [] ∧ base = frame ∧ below = rest :=
      eq_of_depth (stack.symm.trans stack') deep.symm
    obtain ⟨a, rfl, rfl, told, sound, requests⟩ := standing.of_reported note
    exact ⟨fun _ _ => stackOf_of_reports standing stack, a, sound, a.found_of_told told, told,
      requests, rfl, fun isOpen _ => run.called_of_told going told requests isOpen⟩

end

end State

namespace Sample

/-- The first listener fails to stop, the second is isolated, the third has no stop method
and the fourth panics when it is asked for its type. -/
def services : Client Unit where
  consult l _ := if l = 4 then .panic (.text "no type") else .finish (.ok .nil)
  typeOf l _ :=
    if l = 3 then { name := "Plain" }
    else ({ name := "Service", isolated := l = 2 } : ObjectType Unit).method
      { name := stopMethod, isolated := true }
  call l _ _ _ := .finish (if l = 1 then .error (.user "busy") else .ok .nil)

/-- Register two handlers, one of which panics, and four listeners, and stop. -/
def stopServices : Code Unit :=
  .addHandler (fun _ => .panic (.text "exploded")) <| .addHandler (fun _ => done) <|
    .ask (.registerListener 1) fun _ => .ask (.registerListener 2) fun _ =>
      .ask (.registerListener 3) fun _ => .ask (.registerListener 4) fun _ =>
        .ask .gracefulStop fun _ => done

def stopReport : StopReport where
  handlersRun := 2
  listenersStopped := 2
  failures :=
    [⟨.handler 0, .ofPanic (.text "exploded")⟩, ⟨.listener 4, .ofPanic (.text "no type")⟩,
      ⟨.listener 1, .user "busy"⟩]

end Sample

namespace State

open Sample

def servicesStart : State Unit := State.start 1 () [1, 2, 3, 4] [stopServices]

def servicesUp : List ThreadId := List.replicate 11 1

def servicesDown : List ThreadId :=
  List.replicate 33 1 ++ List.replicate 60 0 ++ List.replicate 2 1

def servicesCalled : State Unit := (servicesStart.replay services servicesUp).2

def servicesStopped : State Unit := (servicesCalled.replay services servicesDown).2

theorem stops_services : ∃ a : Account Unit, a.report = stopReport ∧
    ∀ h ∈ a.heard, ∃ type, .asked h.listener type h.future ∈ a.visits ∧
      Called services (servicesStart.beats services servicesUp ++
        servicesCalled.beats services servicesDown) servicesStopped type h := by
  have run : Log services servicesStart (servicesStart.beats services servicesUp)
      servicesCalled := log_beats _ _ _
  have going : Log services servicesCalled (servicesCalled.beats services servicesDown)
      servicesStopped := log_beats _ _ _
  obtain ⟨next, called⟩ : ∃ next : Reply → Code Unit, servicesCalled.stackOf 1 =
      .takeHandlers false :: [.waiting .thread next] := ⟨_, rfl⟩
  have plain : (notesOf services 1 1 (servicesCalled.beats services servicesDown)).all
      (fun | .reported _ => false | _ => true) = true := by decide +kernel
  have unreturned (report : StopReport) :
      .reported report ∉ notesOf services 1 1 (servicesCalled.beats services servicesDown) :=
    fun mem => by cases List.all_eq_true.1 plain _ mem
  obtain ⟨_, _, reports⟩ := run.stops called going unreturned
  obtain ⟨_, a, _, _, _, _, report, heard⟩ := reports stopReport rfl
  exact ⟨a, report.symm, heard (not_closed (by decide +kernel))⟩

end State
end Strands
