/-
Stop handlers are run once each.

The handlers of a run are numbered in the order in which they are registered.  Those that stops
took are always the first ones, and the registry keeps the others in order: `Log.keeps_handlers`.
A stop runs the handlers that it took, from the first to the last.  So no two of these
`HandlerRun`s are of the same number, whichever threads stop and register, and once all stops
that were called for have returned, every handler that was registered before one of the calls
has been run: `Log.handles_once`.
-/
import Strands.Proofs.Callers
import Strands.Proofs.Listeners

namespace Strands

variable {W : Type}

/-! ## Handlers by number -/

def Entry.handler? : Entry W → Option (Strand → Code W)
  | hooked handler => some handler
  | _ => none

def registered (log : List (Beat W)) : List (Strand → Code W) :=
  (entries log).filterMap Entry.handler?

def Beat.takenOut (beat : Beat W) : Nat :=
  match beat.entered? with
  | some .emptied => beat.s.shared.registry.handlers.length
  | _ => 0

def takenOut (log : List (Beat W)) : Nat := (log.map Beat.takenOut).sum

theorem registered_append (a b : List (Beat W)) :
    registered (a ++ b) = registered a ++ registered b := by
  rw [registered, entries_append, List.filterMap_append]
  rfl

theorem takenOut_append (a b : List (Beat W)) :
    takenOut (a ++ b) = takenOut a + takenOut b := by
  rw [takenOut, List.map_append, List.sum_append]
  rfl

theorem takenOut_cons (beat : Beat W) (log : List (Beat W)) :
    takenOut (beat :: log) = beat.takenOut + takenOut log := List.sum_cons

theorem takenOut_one (beat : Beat W) : takenOut [beat] = beat.takenOut := by
  rw [takenOut_cons]
  rfl

theorem Beat.takenOut_of_emptied {beat : Beat W} (emptied : beat.entered? = some .emptied) :
    beat.takenOut = beat.s.shared.registry.handlers.length := by rw [takenOut, emptied]

theorem exists_take {log : List (Beat W)} {n : Nat} (lt : n < takenOut log) :
    ∃ before take after, log = before ++ take :: after ∧ takenOut before ≤ n ∧
      n < takenOut before + take.takenOut := by
  induction log using List.reverseRecOn with
  | nil => exact absurd lt (Nat.not_lt_zero n)
  | append_singleton log beat ih =>
    by_cases earlier : n < takenOut log
    · obtain ⟨before, take, after, rfl, le, lt⟩ := ih earlier
      exact ⟨before, take, after ++ [beat], by simp, le, lt⟩
    · rw [takenOut_append, takenOut_one] at lt
      exact ⟨log, beat, [], rfl, Nat.le_of_not_lt earlier, lt⟩

theorem split_between {α : Type} {a b c d : List α} {x y : α} (eq : a ++ x :: b = c ++ y :: d)
    (lt : a.length < c.length) : ∃ mid, c = a ++ x :: mid ∧ b = mid ++ y :: d := by
  rcases List.append_eq_append_iff.1 eq with ⟨mid, rfl, rest⟩ | ⟨mid, rfl, _⟩
  · cases mid with
    | nil => simp at lt
    | cons first mid =>
      obtain ⟨rfl, rfl⟩ := List.cons.inj rest
      exact ⟨mid, rfl, rfl⟩
  · rw [List.length_append] at lt
    omega

@[simp] theorem Registry.handlers_register (r : Registry W) (l : ObjectId) :
    (r.register l).handlers = r.handlers := by
  unfold register
  split <;> rfl

namespace State

variable {client : Client W} {workers : Nat} {world : W} {kept : List ObjectId}
  {threads : List (Code W)} {s : State W} {log : List (Beat W)} {thread : ThreadId}

/-- The registry keeps the handlers that were not taken, in the order of their registration. -/
theorem Log.keeps_handlers (run : Log client (State.start workers world kept threads) log s) :
    s.shared.registry.handlers = (registered log).drop (takenOut log) ∧
      takenOut log ≤ (registered log).length := by
  induction run with
  | start => exact ⟨rfl, Nat.le_refl 0⟩
  | @step log s s' actor choice _ taken ih =>
    obtain ⟨kept, le⟩ := ih
    have here : registered [(⟨s, actor⟩ : Beat W)] =
        (s.entered? actor).toList.filterMap Entry.handler? := by
      rw [registered, entries_one]
      rfl
    rw [step_registry taken, registered_append, takenOut_append, takenOut_one, here, Beat.takenOut,
      show (⟨s, actor⟩ : Beat W).entered? = s.entered? actor from rfl]
    cases s.entered? actor with
    | none => simpa [Registry.enterAll] using ⟨kept, le⟩
    | some e =>
      cases e with
      | hooked handler =>
        refine ⟨?_, ?_⟩
        · simp [Registry.enterAll, Registry.enter, Registry.addHandler, Entry.handler?, kept,
            List.drop_append_of_le_length le]
        · simp [Entry.handler?]
          omega
      | emptied =>
        have all : takenOut log + s.shared.registry.handlers.length =
            (registered log).length := by
          rw [kept, List.length_drop]
          omega
        simp [Registry.enterAll, Registry.enter, Registry.takeHandlers, Entry.handler?, all]
      | enlisted l | struck l =>
        simp [Registry.enterAll, Registry.enter, Registry.deregister, List.filterMap_cons,
          Entry.handler?, kept, le]

theorem Log.takenOut_of_emptied {before after : List (Beat W)} {take : Beat W}
    (run : Log client (State.start workers world kept threads) (before ++ take :: after) s)
    (emptied : take.entered? = some .emptied) :
    takenOut before + take.takenOut = (registered before).length := by
  obtain ⟨kept, le⟩ := run.split.1.keeps_handlers
  rw [Beat.takenOut_of_emptied emptied, kept, List.length_drop]
  omega

end State

/-! ## What is noted of handlers -/

section Notes

variable {client : Client W} {thread : ThreadId} {depth : Nat}
  {handlers : List (Strand → Code W)} {beat : Beat W}

theorem Beat.of_took (noted : beat.note client thread depth = some (.took handlers)) :
    beat.thread = thread ∧ beat.entered? = some .emptied ∧
      beat.s.shared.registry.handlers = handlers ∧ ∃ shutsDown below,
        beat.s.stackOf thread = .takeHandlers shutsDown :: below ∧ below.length = depth := by
  obtain ⟨rfl, frame, below, stack, deep, note⟩ := Beat.frame_of_note noted
  obtain ⟨⟨shutsDown, rfl⟩, found⟩ := Frame.madeBy_of_note note
  refine ⟨rfl, ?_, found, shutsDown, below, stack, deep⟩
  rw [Beat.entered?, State.entered?, State.acting_of_stackOf stack]
  rfl

theorem Beat.emptied_of_takenOut (pos : 0 < beat.takenOut) : beat.entered? = some .emptied := by
  unfold Beat.takenOut at pos
  split at pos
  · assumption
  · exact absurd pos (Nat.lt_irrefl 0)

theorem Beat.stack_of_emptied (emptied : beat.entered? = some .emptied) : ∃ shutsDown below,
    beat.s.stackOf beat.thread = .takeHandlers shutsDown :: below := by
  obtain ⟨frame, acting, entry⟩ := Option.bind_eq_some_iff.1 emptied
  obtain ⟨below, stack⟩ := State.stackOf_of_acting acting
  cases frame with
  | takeHandlers shutsDown => exact ⟨shutsDown, below, stack⟩
  | running role code =>
    cases code with
    | ask request next => cases request <;> cases entry
    | _ => cases entry
  | _ => cases entry

theorem Beat.note_unique {thread' : ThreadId} {depth' : Nat} {note note' : Note W}
    (noted : beat.note client thread depth = some note)
    (noted' : beat.note client thread' depth' = some note') :
    thread = thread' ∧ depth = depth' ∧ note = note' := by
  obtain ⟨rfl, frame, below, stack, rfl, own⟩ := Beat.frame_of_note noted
  obtain ⟨rfl, frame', below', stack', rfl, own'⟩ := Beat.frame_of_note noted'
  obtain ⟨rfl, rfl⟩ := List.cons.inj (stack.symm.trans stack')
  exact ⟨rfl, rfl, Option.some.inj (own.symm.trans own')⟩

end Notes

namespace Account

variable {a : Account W}

theorem cases_of_mem_notes {note : Note W} (mem : note ∈ a.notes) :
    (∃ r ∈ a.ran.zipIdx, note ∈ r.1.notes r.2) ∨ (∃ v ∈ a.visits, note ∈ v.notes) ∨
      ∃ h ∈ a.heard, note = h.note := by
  rcases List.mem_append.1 mem with early | heard
  · rcases List.mem_append.1 early with ran | visited
    · exact .inl (List.mem_flatMap.1 ran)
    · exact .inr (.inl (List.mem_flatMap.1 visited))
  · obtain ⟨h, inHeard, rfl⟩ := List.mem_map.1 heard
    exact .inr (.inr ⟨h, inHeard, rfl⟩)

theorem within_of_mem_notes {note : Note W} (mem : note ∈ a.notes) :
    (∀ handlers, note ≠ .took handlers) ∧ ∀ report, note ≠ .reported report := by
  rcases cases_of_mem_notes mem with ⟨r, _, own⟩ | ⟨v, _, own⟩ | ⟨h, _, rfl⟩
  · constructor <;> rintro _ rfl <;> simp [Finish.notes] at own
  · constructor <;> rintro _ rfl <;> cases v <;> simp [Visit.notes] at own
  · constructor <;> rintro _ ⟨⟩

theorem lt_of_began {index : Nat} {handler : Strand → Code W}
    (mem : .began index handler ∈ a.notes) : index < a.ran.length := by
  rcases cases_of_mem_notes mem with ⟨r, inRan, own⟩ | ⟨v, _, own⟩ | ⟨h, _, own⟩
  · obtain ⟨rfl, _⟩ : index = r.2 ∧ handler = r.1.handler := by simpa [Finish.notes] using own
    exact (List.mem_zipIdx' inRan).1
  · cases v <;> simp [Visit.notes] at own
  · cases own

theorem notes_of_lt {index : Nat} (lt : index < a.ran.length) :
    ∃ earlier later handler result,
      a.notes = earlier ++ .began index handler :: .ended result :: later := by
  have inRan : (a.ran[index], index) ∈ a.ran.zipIdx :=
    List.mk_mem_zipIdx_iff_getElem?.2 (List.getElem?_eq_getElem lt)
  obtain ⟨before, after, eq⟩ := List.append_of_mem inRan
  refine ⟨before.flatMap fun r => r.1.notes r.2, (after.flatMap fun r => r.1.notes r.2) ++
    a.visits.flatMap Visit.notes ++ a.heard.map Heard.note, a.ran[index].handler,
    a.ran[index].result, ?_⟩
  rw [notes, eq, List.flatMap_append, List.flatMap_cons]
  simp [Finish.notes]

end Account

/-! ## Runs of handlers -/

/-- A handler is begun in a run, by a stop that took it. -/
structure HandlerRun (client : Client W) (log : List (Beat W)) where
  before : List (Beat W)
  /-- The stop takes the handlers. -/
  take : Beat W
  during : List (Beat W)
  /-- It begins the handler. -/
  beat : Beat W
  after : List (Beat W)
  log_eq : log = before ++ take :: (during ++ beat :: after)
  thread : ThreadId
  depth : Nat
  handlers : List (Strand → Code W)
  took : take.note client thread depth = some (.took handlers)
  unreported : ∀ report, .reported report ∉ notesOf client thread depth during
  index : Nat
  handler : Strand → Code W
  began : beat.note client thread depth = some (.began index handler)

namespace HandlerRun

variable {client : Client W} {log : List (Beat W)}

def place (h : HandlerRun client log) : Nat := (h.before ++ h.take :: h.during).length

def number (h : HandlerRun client log) : Nat := takenOut h.before + h.index

/-- The code of the handler is run. -/
theorem runs (h : HandlerRun client log) {choice : Choice} {s' : State W}
    (taken : h.beat.s.step client h.beat.thread choice = some s') : ∃ stopping below,
      s'.stackOf h.beat.thread =
        .running (.handler stopping) (h.handler (handlerStrand h.index)) :: below := by
  obtain ⟨own, frame, below, stack, _, note⟩ := Beat.frame_of_note h.began
  obtain ⟨stopping, rest, rfl, handlers, index⟩ := Frame.madeBy_of_note note
  rw [← own] at stack
  obtain ⟨worker, p, moved, _, stack'⟩ := State.own_step stack (by rintro reply ⟨⟩) taken
  cases moved
  simp only [runHandlersStep, handlers, index] at stack'
  exact ⟨_, below, stack'⟩

def Ended (h : HandlerRun client log) : Prop :=
  ∃ result later, notesOf client h.thread h.depth h.after = .ended result :: later

end HandlerRun

namespace State

variable {client : Client W} {workers : Nat} {world : W} {kept : List ObjectId}
  {threads : List (Code W)} {s : State W} {log : List (Beat W)}

section

variable (run : Log client (State.start workers world kept threads) log s)

include run

/-- A stop that begins a handler has run those before it, and no others. -/
theorem Log.account_of_begun (h : HandlerRun client log) :
    ∃ (a : Account W) (rest : List (Strand → Code W)) (listeners : List ObjectId),
      h.handlers = a.handlers ++ h.handler :: rest ∧ h.index = a.ran.length ∧
      notesOf client h.thread h.depth h.during = .read listeners :: a.notes := by
  obtain ⟨before, take, during, beat, after, rfl, thread, depth, handlers, took, unreported, index,
    handler, began⟩ := h
  obtain ⟨earlier, choice, s', taken, later⟩ := run.split
  obtain ⟨going, _⟩ := later.split
  obtain ⟨rfl, _, rfl, shutsDown, below, stack, rfl⟩ := Beat.of_took took
  have next : Log client take.s (take :: during) beat.s := (Log.one taken).append going
  have notes : notesOf client take.thread below.length (take :: during) =
      .took take.s.shared.registry.handlers :: notesOf client take.thread below.length during := by
    rw [notesOf, List.filterMap_cons_some took]
    rfl
  obtain ⟨above, base, stack', standing, _⟩ := earlier.amid stack next fun report mem => by
    rw [notes] at mem
    rcases List.mem_cons.1 mem with none | mem
    · cases none
    · exact unreported report mem
  obtain ⟨_, frame, rest, own, deep, note⟩ := Beat.frame_of_note began
  obtain ⟨rfl, rfl, rfl⟩ := eq_of_depth (stack'.symm.trans own) deep.symm
  obtain ⟨stopping, others, rfl, first, rfl⟩ := Frame.madeBy_of_note note
  rw [notes] at standing
  generalize told : Note.took take.s.shared.registry.handlers ::
    notesOf client take.thread below.length during = ns at standing
  cases standing with
  | choose a rest listeners sound early =>
    obtain rfl : rest = handler :: others := first
    obtain ⟨took, read⟩ := List.cons.inj told
    exact ⟨a, others, a.listeners ++ listeners, Note.took.inj took, rfl, read⟩

theorem Log.registered_drop (h : HandlerRun client log) :
    h.handlers = (registered h.before).drop (takenOut h.before) := by
  obtain ⟨before, take, during, beat, after, rfl, thread, depth, handlers, took, unreported, index,
    handler, began⟩ := h
  obtain ⟨_, _, rfl, _⟩ := Beat.of_took took
  exact run.split.1.keeps_handlers.1

theorem Log.registered_of_begun (h : HandlerRun client log) :
    (registered h.before)[h.number]? = some h.handler := by
  obtain ⟨a, rest, listeners, all, index, _⟩ := run.account_of_begun h
  have drop := run.registered_drop h
  rw [all] at drop
  rw [HandlerRun.number, ← List.getElem?_drop, ← drop, index, show a.ran.length = a.handlers.length
    from (List.length_map _).symm, List.getElem?_append_right (Nat.le_refl _), Nat.sub_self]
  rfl

theorem Log.number_lt (h : HandlerRun client log) :
    h.number < takenOut (h.before ++ [h.take]) := by
  obtain ⟨a, rest, listeners, all, index, _⟩ := run.account_of_begun h
  obtain ⟨_, emptied, found, _⟩ := Beat.of_took h.took
  have length : a.handlers.length = a.ran.length := List.length_map _
  rw [HandlerRun.number, takenOut_append, takenOut_one, Beat.takenOut_of_emptied emptied, found,
    all, List.length_append, List.length_cons]
  omega

theorem Log.took_of_during (h : HandlerRun client log) (handlers : List (Strand → Code W)) :
    .took handlers ∉ notesOf client h.thread h.depth h.during := by
  obtain ⟨a, _, _, _, _, read⟩ := run.account_of_begun h
  rw [read]
  rintro (_ | ⟨_, mem⟩)
  exact (Account.within_of_mem_notes mem).1 handlers rfl

theorem Log.number_unique {a b : HandlerRun client log} (same : a.place = b.place) :
    a.before.length = b.before.length ∧ a.number = b.number := by
  have eq : (a.before ++ a.take :: a.during) ++ a.beat :: a.after =
      (b.before ++ b.take :: b.during) ++ b.beat :: b.after := by
    simpa using a.log_eq.symm.trans b.log_eq
  obtain ⟨eq, rest⟩ := List.append_inj eq same
  have began := b.began
  rw [← (List.cons.inj rest).1] at began
  obtain ⟨thread, depth, note⟩ := Beat.note_unique a.began began
  -- The later of the two would have taken the handlers while the other was under way.
  have first {a b : HandlerRun client log} (thread : a.thread = b.thread)
      (depth : a.depth = b.depth)
      (eq : a.before ++ a.take :: a.during = b.before ++ b.take :: b.during) :
      b.before.length ≤ a.before.length := by
    by_contra lt
    obtain ⟨mid, _, during⟩ := split_between eq (Nat.lt_of_not_le lt)
    refine run.took_of_during a b.handlers (List.mem_filterMap.2 ⟨b.take, ?_, ?_⟩)
    · rw [during]
      simp
    · rw [thread, depth]
      exact b.took
  have places := Nat.le_antisymm (first thread.symm depth.symm eq.symm) (first thread depth eq)
  refine ⟨places, ?_⟩
  rw [HandlerRun.number, HandlerRun.number, (List.append_inj eq places).1,
    (Note.began.inj note).1]

theorem Log.number_lt_number {a b : HandlerRun client log}
    (same : a.before.length = b.before.length) (earlier : a.place < b.place) :
    a.number < b.number := by
  obtain ⟨before, eq⟩ := List.append_inj (a.log_eq.symm.trans b.log_eq) same
  obtain ⟨take, eq⟩ := List.cons.inj eq
  have took := b.took
  rw [← take] at took
  obtain ⟨thread, depth, _⟩ := Beat.note_unique a.took took
  have shorter : a.during.length < b.during.length := by
    simp only [HandlerRun.place, List.length_append, List.length_cons] at earlier
    omega
  obtain ⟨mid, during, _⟩ := split_between eq shorter
  obtain ⟨account, _, _, _, index, read⟩ := run.account_of_begun b
  have began : .began a.index a.handler ∈ notesOf client b.thread b.depth b.during := by
    refine List.mem_filterMap.2 ⟨a.beat, ?_, ?_⟩
    · rw [during]
      simp
    · rw [← thread, ← depth]
      exact a.began
  rw [read] at began
  have lt := account.lt_of_began ((List.mem_cons.1 began).resolve_left (by rintro ⟨⟩))
  rw [HandlerRun.number, HandlerRun.number, before, index]
  omega

theorem Log.number_lt_of_take_lt {a b : HandlerRun client log}
    (earlier : a.before.length < b.before.length) : a.number < b.number := by
  obtain ⟨mid, before, _⟩ := split_between (a.log_eq.symm.trans b.log_eq) earlier
  have lt := run.number_lt a
  have taken : takenOut b.before = takenOut (a.before ++ [a.take]) + takenOut mid := by
    rw [before, ← takenOut_append, List.append_assoc]
    rfl
  have le : takenOut b.before ≤ b.number := Nat.le_add_right _ _
  omega

theorem Log.place_unique {a b : HandlerRun client log} (same : a.number = b.number) :
    a.place = b.place := by
  rcases Nat.lt_trichotomy a.before.length b.before.length with lt | eq | gt
  · exact absurd same (Nat.ne_of_lt (run.number_lt_of_take_lt lt))
  · rcases Nat.lt_trichotomy a.place b.place with lt | places | gt
    · exact absurd same (Nat.ne_of_lt (run.number_lt_number eq lt))
    · exact places
    · exact absurd same.symm (Nat.ne_of_lt (run.number_lt_number eq.symm gt))
  · exact absurd same.symm (Nat.ne_of_lt (run.number_lt_of_take_lt gt))

/-- A stop that begins a handler took it before. -/
theorem Log.exists_run {earlier later : List (Beat W)} {beat : Beat W} {depth index : Nat}
    {handler : Strand → Code W} (eq : log = earlier ++ beat :: later)
    (began : beat.note client beat.thread depth = some (.began index handler)) :
    ∃ h : HandlerRun client log, h.place = earlier.length := by
  subst eq
  obtain ⟨until_beat, _⟩ := run.split
  obtain ⟨_, frame, below, stack, rfl, note⟩ := Beat.frame_of_note began
  obtain ⟨stopping, rest, rfl, _⟩ := Frame.madeBy_of_note note
  obtain ⟨call, thread, rfl, unreturned⟩ := until_beat.caller [] stack rfl
  obtain ⟨s₁, shutsDown, called, stack₁, going⟩ := until_beat.after_call call
  obtain ⟨above, base, stack', standing, _⟩ :=
    called.amid stack₁ going fun report mem => unreturned ⟨report, mem⟩
  rw [thread] at stack' standing
  obtain ⟨rfl, rfl, _⟩ := eq_of_depth (stack'.symm.trans stack) rfl
  generalize told : notesOf client beat.thread call.below.length call.after = ns at standing
  cases standing with
  | choose a rest' listeners sound early =>
    obtain ⟨idle, take, during, after, _, took, read⟩ := List.filterMap_eq_cons_iff.1 told
    have unreported (report : StopReport) :
        .reported report ∉ notesOf client beat.thread call.below.length during := by
      intro mem
      rw [notesOf, read] at mem
      have inAccount := (List.mem_cons.1 mem).resolve_left (by rintro ⟨⟩)
      exact (Account.within_of_mem_notes inAccount).2 report rfl
    have whole : earlier = (call.before ++ call.beat :: idle) ++ take :: during := by
      simpa [after] using call.log_eq
    have split : earlier ++ beat :: later =
        (call.before ++ call.beat :: idle) ++ take :: (during ++ beat :: later) :=
      (congrArg (· ++ beat :: later) whole).trans (by simp)
    exact ⟨⟨_, take, during, beat, later, split, beat.thread, call.below.length, _, took,
      unreported, index, handler, began⟩, congrArg List.length whole.symm⟩

theorem Log.taken_of_returned {call : StopCall log} (returned : call.Returned client) :
    (registered call.before).length ≤ takenOut log := by
  obtain ⟨s₁, shutsDown, called, stack₁, going⟩ := run.after_call call
  obtain ⟨during, beat, rest, a, after, told⟩ :=
    called.account_of_reported stack₁ going returned
  obtain ⟨idle, take, more, rfl, _, took, _⟩ := List.filterMap_eq_cons_iff.1 told
  obtain ⟨_, emptied, _⟩ := Beat.of_took took
  have eq : log = (call.before ++ call.beat :: idle) ++ take :: (more ++ beat :: rest) := by
    simpa [after] using call.log_eq
  rw [eq] at run
  have all := run.takenOut_of_emptied emptied
  rw [registered_append, List.length_append] at all
  have taken := congrArg takenOut eq
  rw [takenOut_append, takenOut_cons] at taken
  omega

/-- A handler that was taken has been run once all stops have returned. -/
theorem Log.ran_of_taken (returned : ∀ call : StopCall log, call.Returned client) {n : Nat}
    (lt : n < takenOut log) : ∃ h : HandlerRun client log, h.number = n ∧ h.Ended := by
  obtain ⟨before, take, after, rfl, le, lt⟩ := exists_take lt
  obtain ⟨until_take, choice, s', taken, later⟩ := run.split
  have emptied : take.entered? = some .emptied := Beat.emptied_of_takenOut (by omega)
  obtain ⟨shutsDown, below, stack⟩ := Beat.stack_of_emptied emptied
  obtain ⟨call, thread, rfl, unreturned⟩ := until_take.caller [] stack rfl
  have reported : ∃ report,
      .reported report ∈ notesOf client take.thread call.below.length (take :: after) := by
    obtain ⟨report, mem⟩ := returned (call.extend (take :: after))
    rw [← thread]
    have mem : .reported report ∈ notesOf client call.beat.thread call.below.length
        (call.after ++ take :: after) := mem
    rw [notesOf_append] at mem
    exact ⟨report, (List.mem_append.1 mem).resolve_left fun mem => unreturned ⟨report, mem⟩⟩
  obtain ⟨during, last, rest, a, eq, told⟩ :=
    until_take.account_of_reported stack ((Log.one taken).append later) reported
  have took : take.note client take.thread call.below.length =
      some (.took take.s.shared.registry.handlers) := Beat.note_eq stack
  cases during with
  | nil => cases told
  | cons first during =>
    obtain ⟨rfl, rfl⟩ := List.cons.inj eq
    rw [notesOf, List.filterMap_cons_some took] at told
    obtain ⟨found, told⟩ := List.cons.inj told
    have ran : a.ran.length = take.takenOut := by
      rw [Beat.takenOut_of_emptied emptied, Note.took.inj found]
      exact (List.length_map _).symm
    obtain ⟨earlier', later', handler, result, notes⟩ :=
      a.notes_of_lt (show n - takenOut before < a.ran.length by omega)
    have unreported (report : StopReport) :
        .reported report ∉ notesOf client take.thread call.below.length during := by
      intro mem
      rw [notesOf, told] at mem
      have inAccount := (List.mem_cons.1 mem).resolve_left (by rintro ⟨⟩)
      exact (Account.within_of_mem_notes inAccount).2 report rfl
    have split : Note.read a.listeners :: a.notes = (.read a.listeners :: earlier') ++
        .began (n - takenOut before) handler :: .ended result :: later' := by rw [notes]; rfl
    rw [split] at told
    obtain ⟨front, back, rfl, _, backs⟩ := List.filterMap_eq_append_iff.1 told
    obtain ⟨idle, beat, tail, rfl, _, began, tails⟩ := List.filterMap_eq_cons_iff.1 backs
    refine ⟨⟨before, take, front ++ idle, beat, tail ++ last :: rest, by simp, take.thread,
      call.below.length, _, took, fun report mem => unreported report ?_, n - takenOut before,
      handler, began⟩, Nat.add_sub_cancel' le, result,
      later' ++ notesOf client take.thread call.below.length (last :: rest), ?_⟩
    · rw [← List.append_assoc, notesOf_append]
      exact List.mem_append_left _ mem
    · rw [notesOf_append, notesOf, tails, List.cons_append]

/-- What is promised of the handlers that are registered in a run. -/
structure HandledOnce (client : Client W) (log : List (Beat W)) (s : State W) : Prop where
  /-- A handler is begun by a stop that took it. -/
  begun : ∀ earlier beat later depth index handler, log = earlier ++ beat :: later →
    beat.note client beat.thread depth = some (.began index handler) →
    ∃ h : HandlerRun client log, h.place = earlier.length
  /-- It is the one of its number, and was registered before the stop took the handlers. -/
  registered : ∀ h : HandlerRun client log, (registered h.before)[h.number]? = some h.handler
  /-- Its code is what the thread runs next. -/
  runs : ∀ (h : HandlerRun client log) choice s',
    h.beat.s.step client h.beat.thread choice = some s' → ∃ stopping below,
      s'.stackOf h.beat.thread =
        .running (.handler stopping) (h.handler (handlerStrand h.index)) :: below
  /-- What is begun at a place is one handler, and one stop begins it. -/
  single : ∀ a b : HandlerRun client log, a.place = b.place →
    a.before.length = b.before.length ∧ a.number = b.number
  /-- No handler is begun twice. -/
  once : ∀ a b : HandlerRun client log, a.number = b.number → a.place = b.place
  /-- One stop runs its handlers in the order of their registration. -/
  order : ∀ a b : HandlerRun client log, a.before.length = b.before.length → a.place < b.place →
    a.number < b.number
  /-- A stop takes all the handlers that there are. -/
  taken : ∀ before take after, log = before ++ take :: after → take.entered? = some .emptied →
    takenOut (before ++ [take]) = (Strands.registered before).length
  /-- Those that were not taken are kept in order. -/
  kept : s.shared.registry.handlers = (Strands.registered log).drop (takenOut log)
  /-- Once all stops that were called for have returned, each handler that was registered before
  one of the calls has been run to its end. -/
  ran : ∀ call : StopCall log, (∀ other : StopCall log, other.Returned client) →
    ∀ n < (Strands.registered call.before).length,
      ∃ h : HandlerRun client log, h.number = n ∧ h.Ended

end

/-- Stop handlers are run once each, whichever threads register them and stop. -/
theorem Log.handles_once (run : Log client (State.start workers world kept threads) log s) :
    HandledOnce client log s where
  begun _ _ _ _ _ _ := run.exists_run
  registered := run.registered_of_begun
  runs h _ _ := h.runs
  single _ _ := run.number_unique
  once _ _ := run.place_unique
  order _ _ := run.number_lt_number
  taken before take after eq emptied := by
    subst eq
    rw [takenOut_append, takenOut_one, run.takenOut_of_emptied emptied]
  kept := run.keeps_handlers.1
  ran call returned _ lt := run.ran_of_taken returned
    (Nat.lt_of_lt_of_le lt (run.taken_of_returned (returned call)))

end State

/-! ## A stop within a stop -/

namespace Sample

/-- Register two handlers and stop; the first registers a third and stops, too. -/
def nestedStops : Code Unit :=
  .addHandler (fun _ => .addHandler (fun _ => done) <| .ask .gracefulStop fun _ => done) <|
    .addHandler (fun _ => done) <| .ask .gracefulStop fun _ => done

end Sample

namespace State

open Sample

def nestedStart : State Unit := State.start 0 () [] [nestedStops]

def nestedLog : List (Beat Unit) := nestedStart.beats (client value) (List.replicate 30 0)

theorem handles_nested :
    (∃ h : HandlerRun (client value) nestedLog, h.number = 0 ∧ h.Ended) ∧
      (∃ h : HandlerRun (client value) nestedLog, h.number = 1 ∧ h.Ended) ∧
      ∃ h : HandlerRun (client value) nestedLog, h.number = 2 ∧ h.Ended := by
  have run : Log (client value) nestedStart nestedLog
      (nestedStart.replay (client value) (List.replicate 30 0)).2 := log_beats _ _ _
  have all : allReturn (client value) nestedLog = true := by decide +kernel
  obtain ⟨role, next, rest, stack⟩ : ∃ role next rest,
      (nestedStart.replay (client value) (List.replicate 7 0)).2.stackOf 0 =
        .running role (.ask .gracefulStop next) :: rest := ⟨_, _, _, rfl⟩
  obtain ⟨call, before⟩ : ∃ call : StopCall nestedLog,
      call.before = nestedStart.beats (client value) (List.replicate 7 0) :=
    ⟨⟨_, ⟨_, 0⟩, _, rfl, role, _, next, rest, stack, rfl⟩, rfl⟩
  have three : (registered call.before).length = 3 := by rw [before]; rfl
  have ran := run.handles_once.ran call fun other => other.returned_of_allReturn all
  rw [three] at ran
  exact ⟨ran 0 (by decide), ran 1 (by decide), ran 2 (by decide)⟩

end State
end Strands
