/-
The listeners of the registry.

Each step makes at most one `Entry` in the registry, and the registry is what the entries of a
run leave (`Log.registry`).  What its listeners are is said without replaying anything: they are
those whose latest entry is a registration, each once, in the order in which they last went from
absent to registered, and an entry about one listener leaves the others as they are, in their
order: `Log.enrolls`.
-/
import Mathlib.Data.List.Induction
import Strands.Proofs.Turns

namespace Strands

variable {W : Type}

/-! ## Entries -/

/-- What a step does to the registry. -/
inductive Entry (W : Type) where
  | enlisted (listener : ObjectId)
  | struck (listener : ObjectId)
  | hooked (handler : Strand → Code W)
  /-- A stop took the handlers. -/
  | emptied

namespace Registry

def enter (r : Registry W) : Entry W → Registry W
  | .enlisted listener => r.register listener
  | .struck listener => r.deregister listener
  | .hooked handler => r.addHandler handler
  | .emptied => r.takeHandlers

def enterAll (r : Registry W) (entries : List (Entry W)) : Registry W := entries.foldl enter r

theorem enterAll_concat (r : Registry W) (entries : List (Entry W)) (e : Entry W) :
    r.enterAll (entries ++ [e]) = (r.enterAll entries).enter e := by
  rw [enterAll, List.foldl_append]
  rfl

end Registry

def Code.entered? : Code W → Option (Entry W)
  | ask (.registerListener listener) _ => some (.enlisted listener)
  | ask (.deregisterListener listener) _ => some (.struck listener)
  | addHandler handler _ => some (.hooked handler)
  | _ => none

def Frame.entered? : Frame W → Option (Entry W)
  | running _ code => code.entered?
  | takeHandlers _ => some .emptied
  | _ => none

def State.entered? (s : State W) (thread : ThreadId) : Option (Entry W) :=
  (s.acting thread).bind Frame.entered?

def Beat.entered? (beat : Beat W) : Option (Entry W) := beat.s.entered? beat.thread

def entries (log : List (Beat W)) : List (Entry W) := log.filterMap Beat.entered?

theorem entries_append (a b : List (Beat W)) : entries (a ++ b) = entries a ++ entries b :=
  List.filterMap_append

theorem entries_one (beat : Beat W) : entries [beat] = beat.entered?.toList := by
  cases entry : beat.entered? <;> simp [entries, entry]

/-! ## What a step enters -/

section Steps

variable {client : Client W} {sight : Sight} {choice : Choice} {s : Shared W} {p : Progress W}

theorem Code.step_registry {late : Bool} {role : Role W} {code : Code W}
    (taken : code.step client sight late s role = some p) :
    p.shared.registry = s.registry.enterAll code.entered?.toList := by
  cases code with
  | finish outcome | panic payload => cases taken; rw [role.ended_shared]; rfl
  | await ready next =>
    simp only [step] at taken
    split at taken <;> cases taken
    rfl
  | awaitAtMost milliseconds ready next =>
    simp only [step] at taken
    split at taken
    · cases taken
      rfl
    · split at taken <;> cases taken
      rfl
  | ask request next =>
    cases taken
    cases request with
    | takeHandle =>
      simp only [Request.serve]
      split <;> rfl
    | _ => rfl
  | _ => cases taken; rfl

theorem Frame.step_registry {frame : Frame W}
    (taken : frame.step client sight choice s = some p) :
    p.shared.registry = s.registry.enterAll frame.entered?.toList := by
  cases frame with
  | running role code => exact Code.step_registry taken
  | takeHandlers shutsDown => cases taken; rfl
  | letGo held | ring | ringAll | checkFlag | lockBell | recheckQueue | recheckFlag | settleDown
  | rest | getUp | raiseFlag | lockCrew | join workers | awaitFuture f
  | awaitFutureAtMost f milliseconds =>
    rw [(step_of_lingers rfl taken).shared]
    rfl
  | _ => exact (Frame.step_steady rfl (fun _ _ eq => by cases eq) (fun _ eq => by cases eq)
      taken).registry

end Steps

namespace State

variable {client : Client W} {start s s' : State W} {thread : ThreadId} {choice : Choice}
  {log : List (Beat W)}

theorem step_registry (taken : s.step client thread choice = some s') :
    s'.shared.registry = s.shared.registry.enterAll (s.entered? thread).toList := by
  obtain ⟨acted⟩ := step_cases taken
  have move := acted.move
  have stack := acted.stackOf_eq
  rw [acted.shared']
  generalize acted.progress = p at move ⊢
  generalize acted.top = top at move stack
  cases move with
  | receive reply role next | pass reply held =>
    rw [entered?, acting_of_stackOf stack]
    cases reply <;> rfl
  | act moved =>
    rw [entered?, acting_of_stackOf stack]
    exact Frame.step_registry moved

/-- The registry is what the entries of a run leave. -/
theorem Log.registry (run : Log client start log s) :
    s.shared.registry = start.shared.registry.enterAll (entries log) := by
  induction run with
  | start => rfl
  | @step log s s' thread choice _ taken ih =>
    rw [step_registry taken, ih, entries_append, entries_one]
    exact List.foldl_append.symm

end State

/-! ## The latest entry of a listener -/

def Entry.listener? : Entry W → Option ObjectId
  | enlisted l | struck l => some l
  | _ => none

/-- The latest of some entries that is about a listener is its registration. -/
def Enlisted (entries : List (Entry W)) (l : ObjectId) : Prop :=
  ∃ before after, entries = before ++ .enlisted l :: after ∧ ∀ e ∈ after, e.listener? ≠ some l

/-- The entry at a place brought a listener from absent to registered, and the listener has been
registered since. -/
def Since (entries : List (Entry W)) (l : ObjectId) (place : Nat) : Prop :=
  ∃ before after, entries = before ++ .enlisted l :: after ∧ before.length = place ∧
    ¬ Enlisted before l ∧ .struck l ∉ after

section Latest

variable {es : List (Entry W)} {e : Entry W} {l : ObjectId} {i j : Nat}

theorem not_enlisted_nil : ¬ Enlisted ([] : List (Entry W)) l := by
  rintro ⟨before, after, eq, _⟩
  simp at eq

theorem Entry.cases_of_listener? (about : e.listener? = some l) :
    e = .enlisted l ∨ e = .struck l := by
  cases e with
  | enlisted l' => exact .inl (congrArg Entry.enlisted (Option.some.inj about))
  | struck l' => exact .inr (congrArg Entry.struck (Option.some.inj about))
  | _ => cases about

theorem enlisted_concat :
    Enlisted (es ++ [e]) l ↔ e = .enlisted l ∨ (e.listener? ≠ some l ∧ Enlisted es l) := by
  constructor
  · rintro ⟨before, after, eq, free⟩
    rcases List.eq_nil_or_concat after with rfl | ⟨rest, last, rfl⟩
    · exact .inl (List.cons.inj (List.append_inj' eq rfl).2).1
    · have split : es ++ [e] = (before ++ .enlisted l :: rest) ++ [last] := by simpa using eq
      obtain ⟨rfl, lasts⟩ := List.append_inj' split rfl
      obtain rfl := (List.cons.inj lasts).1
      rw [List.concat_eq_append] at free
      exact .inr ⟨free e (by simp),
        before, rest, rfl, fun e mem => free e (List.mem_append_left _ mem)⟩
  · rintro (rfl | ⟨other, before, after, rfl, free⟩)
    · exact ⟨es, [], rfl, fun _ mem => by cases mem⟩
    · refine ⟨before, after ++ [e], by simp, List.forall_mem_append.2 ⟨free, ?_⟩⟩
      exact List.forall_mem_singleton.2 other

theorem since_concat : Since (es ++ [e]) l i ↔
    (e ≠ .struck l ∧ Since es l i) ∨ (e = .enlisted l ∧ ¬ Enlisted es l ∧ i = es.length) := by
  constructor
  · rintro ⟨before, after, eq, rfl, absent, stays⟩
    rcases List.eq_nil_or_concat after with rfl | ⟨rest, last, rfl⟩
    · obtain ⟨rfl, same⟩ := List.append_inj' eq rfl
      exact .inr ⟨(List.cons.inj same).1, absent, rfl⟩
    · have split : es ++ [e] = (before ++ .enlisted l :: rest) ++ [last] := by simpa using eq
      obtain ⟨rfl, lasts⟩ := List.append_inj' split rfl
      obtain rfl := (List.cons.inj lasts).1
      rw [List.concat_eq_append, List.mem_append, List.mem_singleton, not_or] at stays
      exact .inl ⟨Ne.symm stays.2, before, rest, rfl, rfl, absent, stays.1⟩
  · rintro (⟨stays, before, after, rfl, rfl, absent, stayed⟩ | ⟨rfl, absent, rfl⟩)
    · refine ⟨before, after ++ [e], by simp, rfl, absent, ?_⟩
      rw [List.mem_append, List.mem_singleton, not_or]
      exact ⟨stayed, Ne.symm stays⟩
    · exact ⟨es, [], rfl, rfl, absent, by simp⟩

theorem Since.lt (since : Since es l i) : i < es.length := by
  obtain ⟨before, after, rfl, rfl, _⟩ := since
  simp

theorem Since.enlisted (since : Since es l i) : Enlisted es l := by
  induction es using List.reverseRecOn generalizing i with
  | nil => exact absurd since.lt (Nat.not_lt_zero i)
  | append_singleton es e ih =>
    rcases since_concat.1 since with ⟨stays, earlier⟩ | ⟨rfl, _⟩
    · by_cases about : e.listener? = some l
      · rcases Entry.cases_of_listener? about with rfl | rfl
        · exact enlisted_concat.2 (.inl rfl)
        · exact absurd rfl stays
      · exact enlisted_concat.2 (.inr ⟨about, ih earlier⟩)
    · exact enlisted_concat.2 (.inl rfl)

/-- A listener has been registered since one place only. -/
theorem Since.unique (since : Since es l i) (since' : Since es l j) : i = j := by
  induction es using List.reverseRecOn generalizing i j with
  | nil => exact absurd since.lt (Nat.not_lt_zero i)
  | append_singleton es e ih =>
    rcases since_concat.1 since with ⟨_, earlier⟩ | ⟨_, absent, rfl⟩ <;>
      rcases since_concat.1 since' with ⟨_, earlier'⟩ | ⟨_, absent', rfl⟩
    · exact ih earlier earlier'
    · exact absurd earlier.enlisted absent'
    · exact absurd earlier'.enlisted absent
    · rfl

theorem exists_since (enlisted : Enlisted es l) : ∃ i, Since es l i := by
  induction es using List.reverseRecOn with
  | nil => exact absurd enlisted not_enlisted_nil
  | append_singleton es e ih =>
    by_cases earlier : Enlisted es l
    · obtain ⟨i, since⟩ := ih earlier
      refine ⟨i, since_concat.2 (.inl ⟨?_, since⟩)⟩
      rintro rfl
      rcases enlisted_concat.1 enlisted with other | ⟨other, _⟩
      · cases other
      · exact other rfl
    · rcases enlisted_concat.1 enlisted with rfl | ⟨_, was⟩
      · exact ⟨es.length, since_concat.2 (.inr ⟨rfl, earlier, rfl⟩)⟩
      · exact absurd was earlier

theorem Since.of_concat (since : Since (es ++ [e]) l i) (was : Enlisted es l) : Since es l i := by
  rcases since_concat.1 since with ⟨_, earlier⟩ | ⟨_, absent, _⟩
  · exact earlier
  · exact absurd was absent

end Latest

/-! ## Listeners in order -/

/-- The listeners are those whose latest entry is a registration, each once, in the order in which
they last went from absent to registered. -/
structure InOrder (entries : List (Entry W)) (listeners : List ObjectId) : Prop where
  nodup : listeners.Nodup
  mem : ∀ l, l ∈ listeners ↔ Enlisted entries l
  since : ∀ l ∈ listeners, ∃! place, Since entries l place
  order : listeners.Pairwise fun a b => ∀ i j, Since entries a i → Since entries b j → i < j

namespace Registry

variable {r : Registry W} {l : ObjectId}

theorem register_of_mem (known : l ∈ r.listeners) : r.register l = r :=
  if_pos (List.contains_iff_mem.2 known)

theorem register_of_not_mem (unknown : l ∉ r.listeners) :
    (r.register l).listeners = r.listeners ++ [l] := by
  rw [register, if_neg (mt List.contains_iff_mem.1 unknown)]

theorem deregister_of_not_mem (unknown : l ∉ r.listeners) : r.deregister l = r := by
  rw [deregister, List.erase_of_not_mem unknown]

theorem enter_of_aside {e : Entry W} (aside : e.listener? = none) :
    (r.enter e).listeners = r.listeners := by
  cases e with
  | enlisted l | struck l => cases aside
  | _ => rfl

end Registry

namespace InOrder

variable {es : List (Entry W)} {e : Entry W} {r : Registry W}

theorem since_of_mem {listeners : List ObjectId} (mem : ∀ l, l ∈ listeners ↔ Enlisted es l)
    (l : ObjectId) (inList : l ∈ listeners) : ∃! place, Since es l place := by
  obtain ⟨place, since⟩ := exists_since ((mem l).1 inList)
  exact ⟨place, since, fun other since' => since'.unique since⟩

theorem order_concat (inOrder : InOrder es r.listeners) {listeners : List ObjectId}
    (stays : listeners.Sublist r.listeners) :
    listeners.Pairwise fun a b => ∀ i j, Since (es ++ [e]) a i → Since (es ++ [e]) b j → i < j := by
  have registered (a : ObjectId) (inList : a ∈ listeners) : Enlisted es a :=
    (inOrder.mem a).1 (stays.subset inList)
  exact (inOrder.order.sublist stays).imp_of_mem fun inList inList' earlier i j since since' =>
    earlier i j (since.of_concat (registered _ inList)) (since'.of_concat (registered _ inList'))

theorem enter (inOrder : InOrder es r.listeners) (e : Entry W) :
    InOrder (es ++ [e]) (r.enter e).listeners := by
  have nodup : (r.enter e).listeners.Nodup := by
    cases e with
    | enlisted l => exact Registry.nodup_register inOrder.nodup l
    | struck l => exact Registry.nodup_deregister inOrder.nodup l
    | _ => exact inOrder.nodup
  have mem (l : ObjectId) : l ∈ (r.enter e).listeners ↔ Enlisted (es ++ [e]) l := by
    rw [enlisted_concat, ← inOrder.mem]
    cases e with
    | enlisted l' =>
      rw [Registry.enter, Registry.mem_register]
      simp only [Entry.listener?, Entry.enlisted.injEq, ne_eq, Option.some.injEq]
      by_cases same : l = l'
      · simp [same]
      · simp [same, Ne.symm same]
    | struck l' =>
      rw [Registry.enter, Registry.mem_deregister inOrder.nodup]
      simp [Entry.listener?, eq_comm]
    | _ => simp [Registry.enter, Registry.addHandler, Registry.takeHandlers, Entry.listener?]
  refine ⟨nodup, mem, since_of_mem mem, ?_⟩
  cases e with
  | enlisted l =>
    by_cases known : l ∈ r.listeners
    · rw [Registry.enter, Registry.register_of_mem known]
      exact inOrder.order_concat (List.Sublist.refl _)
    · rw [Registry.enter, Registry.register_of_not_mem known]
      refine List.pairwise_append.2 ⟨inOrder.order_concat (List.Sublist.refl _),
        List.pairwise_singleton _ _, fun a inList b new i j since since' => ?_⟩
      -- What is put at the end is registered only now.
      obtain rfl := List.mem_singleton.1 new
      have earlier := (since.of_concat ((inOrder.mem a).1 inList)).lt
      rcases since_concat.1 since' with ⟨_, was⟩ | ⟨_, _, rfl⟩
      · exact absurd ((inOrder.mem b).2 was.enlisted) known
      · exact earlier
  | struck l => exact inOrder.order_concat List.erase_sublist
  | _ => exact inOrder.order_concat (List.Sublist.refl _)

end InOrder

theorem Registry.inOrder_enterAll (es : List (Entry W)) :
    InOrder es (({} : Registry W).enterAll es).listeners := by
  induction es using List.reverseRecOn with
  | nil =>
    have mem (l : ObjectId) : l ∈ ([] : List ObjectId) ↔ Enlisted ([] : List (Entry W)) l := by
      simp [not_enlisted_nil]
    exact ⟨List.nodup_nil, mem, InOrder.since_of_mem mem, List.Pairwise.nil⟩
  | append_singleton es e ih =>
    rw [enterAll_concat]
    exact ih.enter e

theorem Registry.enterAll_again (es between : List (Entry W)) {l : ObjectId}
    (absent : ∀ e ∈ between, e.listener? ≠ some l) :
    ∃ others, (({} : Registry W).enterAll (es ++ .struck l :: between ++ [.enlisted l])).listeners =
      others ++ [l] := by
  have gone : ¬ Enlisted (es ++ .struck l :: between) l := by
    induction between using List.reverseRecOn with
    | nil => simp [enlisted_concat, Entry.listener?]
    | append_singleton between e ih =>
      rw [← List.cons_append, ← List.append_assoc, enlisted_concat, not_or, not_and]
      refine ⟨?_, fun _ => ih fun e mem => absent e (List.mem_append_left _ mem)⟩
      rintro rfl
      exact absent _ (List.mem_append_right _ (List.mem_singleton_self _)) rfl
  rw [enterAll_concat, enter, register_of_not_mem]
  · exact ⟨_, rfl⟩
  · rwa [(inOrder_enterAll _).mem]

/-- What an entry makes of the listeners. -/
structure Entry.Makes (e : Entry W) (before after : List ObjectId) : Prop where
  /-- Registering a listener again keeps its place. -/
  again : ∀ l ∈ before, e = .enlisted l → after = before
  new : ∀ l, l ∉ before → e = .enlisted l → after = before ++ [l]
  unknown : ∀ l, l ∉ before → e = .struck l → after = before
  /-- The others stay, in their order. -/
  others : ∀ l, e.listener? = some l → after.filter (· ≠ l) = before.filter (· ≠ l)
  aside : e.listener? = none → after = before

theorem Registry.enter_makes (r : Registry W) (e : Entry W) :
    e.Makes r.listeners (r.enter e).listeners where
  again l known own := by rw [own, enter, register_of_mem known]
  new l unknown own := by rw [own, enter, register_of_not_mem unknown]
  unknown l unknown own := by rw [own, enter, deregister_of_not_mem unknown]
  others l own := by
    rcases Entry.cases_of_listener? own with rfl | rfl
    · by_cases known : l ∈ r.listeners
      · rw [enter, register_of_mem known]
      · rw [enter, register_of_not_mem known, List.filter_append]
        simp
    · rw [enter, deregister, ← List.erase_filter, List.erase_of_not_mem (by simp)]
  aside := enter_of_aside

namespace State

variable {client : Client W} {workers : Nat} {world : W} {kept : List ObjectId}
  {threads : List (Code W)} {s : State W} {log : List (Beat W)}

/-- The registry's listeners are those whose latest entry is a registration, each once, in the
order in which they last went from absent to registered.  This is what a client that asks for
them is told.  A step that is no entry about a listener leaves them as they are; an entry about
one listener leaves the others as they are, in their order; and one that is struck off and later
registered again is the last. -/
theorem Log.enrolls (run : Log client (State.start workers world kept threads) log s) :
    InOrder (entries log) s.shared.registry.listeners ∧
    (∀ thread choice s' role next below,
      s.stackOf thread = .running role (.ask .listeners next) :: below →
      s.step client thread choice = some s' →
      s'.stackOf thread =
        .deliver (.objects s.shared.registry.listeners) :: .waiting role next :: below) ∧
    (∀ thread choice s', s.step client thread choice = some s' →
      match s.entered? thread with
      | some e => e.Makes s.shared.registry.listeners s'.shared.registry.listeners
      | none => s'.shared.registry.listeners = s.shared.registry.listeners) ∧
    ∀ es between l, entries log = es ++ .struck l :: between ++ [.enlisted l] →
      (∀ e ∈ between, e.listener? ≠ some l) →
      ∃ others, s.shared.registry.listeners = others ++ [l] := by
  have registry := run.registry
  refine ⟨?_, fun thread choice s' role next below stack taken => ?_,
    fun thread choice s' taken => ?_, fun es between l eq absent => ?_⟩
  · rw [registry]
    exact Registry.inOrder_enterAll _
  · obtain ⟨worker, p, moved, _, after⟩ := own_step stack (by rintro reply ⟨⟩) taken
    cases moved
    exact after
  · have entered := step_registry taken
    cases entry : s.entered? thread with
    | none => rw [entered, entry]; rfl
    | some e =>
      rw [entered, entry]
      exact s.shared.registry.enter_makes e
  · rw [registry, eq]
    exact Registry.enterAll_again es between absent

end State

namespace Sample

/-- Register two listeners and the first again, deregister one that is not registered, and take
the first off and on again. -/
def enrolling : Code Unit :=
  .ask (.registerListener 1) fun _ => .ask (.registerListener 2) fun _ =>
    .ask (.registerListener 1) fun _ => .ask (.deregisterListener 3) fun _ =>
      .ask (.deregisterListener 1) fun _ => .ask (.registerListener 1) fun _ => done

end Sample

namespace State

open Sample

def enrollingStart : State Unit := State.start 0 () [1, 2, 3] [enrolling]

def enrollingLog : List (Beat Unit) :=
  enrollingStart.beats (client value) (List.replicate 13 0)

theorem enrolls_again : InOrder (entries enrollingLog) [2, 1] ∧
    ∃ others, [2, 1] = others ++ [1] := by
  have run : Log (client value) enrollingStart enrollingLog
      (enrollingStart.replay (client value) (List.replicate 13 0)).2 := log_beats _ _ _
  obtain ⟨inOrder, _, _, last⟩ := run.enrolls
  have entered : entries enrollingLog =
      [.enlisted 1, .enlisted 2, .enlisted 1, .struck 3] ++ .struck 1 :: [] ++ [.enlisted 1] := rfl
  exact ⟨inOrder, last _ [] 1 entered (by simp)⟩

end State
end Strands
