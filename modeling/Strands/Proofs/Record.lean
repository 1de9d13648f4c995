/-
The records of futures are what the history says of them.

`Recorded` relates a history to the records it leaves: a future has a record once it
was made, which happens once; the record shows that it is bound once it was claimed,
its state is the outcome that was notified, and so on.  `Trace.recorded` says that
this holds along every trace.  It follows that a future is bound at most once and
notified at most once.
-/
import Strands.Proofs.Law

namespace Strands

variable {W : Type}

/-- What happens at most once happened in one way only. -/
theorem eq_of_tally_le_one {n : Event → Nat} {history : List Event} (once : tally n history ≤ 1)
    {e e' : Event} (h : e ∈ history) (h' : e' ∈ history) (pos : 0 < n e) (pos' : 0 < n e') :
    e = e' := by
  by_contra ne
  have := add_le_tally (n := n) h h' ne
  omega

/-! ## Records, one step at a time -/

namespace Futures

theorem get?_modify (fs : Futures W) (g f : FutureId) (change : Future W → Future W) :
    (fs.modify g change).get? f = (fs.get? f).map fun u => if g = f then change u else u := by
  cases g with
  | zero =>
    cases f with
    | zero => rfl
    | succ n => simp [modify]
  | succ m =>
    cases f with
    | zero => rfl
    | succ n => simp [modify, get?, List.getElem?_modify]

theorem get?_nextId (fs : Futures W) : fs.get? fs.nextId = none := by
  simp [nextId, get?]

theorem get?_append_of_ne (fs : Futures W) (u : Future W) {f : FutureId} (h : f ≠ fs.nextId) :
    (fs ++ [u]).get? f = fs.get? f := by
  cases f with
  | zero => rfl
  | succ n =>
    have : n ≠ fs.length := fun same => h (by rw [same, nextId])
    simp only [get?]
    rcases Nat.lt_or_gt_of_ne this with lt | gt
    · rw [List.getElem?_append_left lt]
    · rw [List.getElem?_eq_none (by simp; omega), List.getElem?_eq_none (by omega)]

theorem get?_append_nextId (fs : Futures W) (u : Future W) :
    (fs ++ [u]).get? fs.nextId = some u := by
  simp [nextId, get?]

def isClaimed (fs : Futures W) (f : FutureId) : Bool := ((fs.get? f).map Future.claimed).getD false

end Futures

namespace Event

def argumentOf : Event → Option FutureId
  | argument _ call => call
  | _ => none

def update (f : FutureId) : Event → Future W → Future W
  | handed g, u => if g = f then u.keep else u
  | forgot g, u => if g = f then u.forget else u
  | claimed g _ _, u => if g = f then u.claim else u
  | notified g outcome _, u => if g = f then u.complete outcome else u
  | announced g, u => if g = f then u.announce else u
  | _, u => u

/-- The outcome of which the callback of a future is notified. -/
def outcomeOf (f : FutureId) : Event → Option Outcome
  | notified g outcome _ => if g = f then some outcome else none
  | _ => none

/-- An event makes a future or updates its record. -/
theorem Writes.get? {fs fs' : Futures W} {e : Event} (h : e.Writes fs fs') (f : FutureId) :
    (e.births f = 1 ∧ fs.get? f = none ∧
      ∃ u, fs'.get? f = some u ∧ u.Fresh f ∧ u.callback.bind Callback.call? = e.argumentOf) ∨
    (e.births f = 0 ∧ fs'.get? f = (fs.get? f).map (e.update f)) := by
  have born : ∀ {g call}, Futures.Grows fs fs' g call →
      (one f g = 1 ∧ fs.get? f = none ∧
        ∃ u, fs'.get? f = some u ∧ u.Fresh f ∧ u.callback.bind Callback.call? = call) ∨
      (one f g = 0 ∧ fs'.get? f = (fs.get? f).map fun u => u) := by
    rintro g call ⟨rfl, u, fresh, callback, rfl⟩
    by_cases same : f = fs.nextId
    · subst same
      exact .inl ⟨one_self _, fs.get?_nextId, u, fs.get?_append_nextId u, fresh, callback⟩
    · refine .inr ⟨one_of_ne (Ne.symm same), ?_⟩
      rw [fs.get?_append_of_ne u same]
      simp
  cases e with
  | created g | opened g fault context | argument g call | asked g => exact born h
  | handed g | forgot g | announced g =>
    refine .inr ⟨rfl, ?_⟩
    rw [show fs' = _ from h, Futures.get?_modify]
    rfl
  | claimed g byClient context | notified g outcome failing =>
    refine .inr ⟨rfl, ?_⟩
    rw [show fs' = _ from h.2, Futures.get?_modify]
    rfl
  | requested g | rejected g byClient | ignored g =>
    refine .inr ⟨rfl, ?_⟩
    rw [show fs' = fs from h.2]
    exact Option.map_id'.symm
  | _ =>
    refine .inr ⟨rfl, ?_⟩
    rw [show fs' = fs from h]
    exact Option.map_id'.symm

/-! What an update does to each part of a record. -/

variable (f : FutureId) (e : Event) (u : Future W)

theorem update_state : (e.update f u).state = (e.outcomeOf f).or u.state := by
  cases e with
  | handed g | forgot g | claimed g byClient context | notified g outcome failing | announced g =>
    by_cases same : g = f <;> simp only [update, outcomeOf, same, if_true, if_false] <;> rfl
  | _ => rfl

theorem update_strand : (e.update f u).strand = u.strand := by
  cases e with
  | handed g | forgot g | claimed g byClient context | notified g outcome failing | announced g =>
    by_cases same : g = f <;>
      simp [update, same, Future.keep, Future.forget, Future.claim, Future.complete,
        Future.announce]
  | _ => rfl

theorem update_claimed : (e.update f u).claimed = (u.claimed || e.claims f == 1) := by
  cases e with
  | claimed g byClient context =>
    by_cases same : g = f <;> simp [update, claims, one, same, Future.claim]
  | handed g | forgot g | notified g outcome failing | announced g =>
    by_cases same : g = f <;>
      simp [update, claims, same, Future.keep, Future.forget, Future.complete, Future.announce]
  | _ => simp [update, claims]

theorem update_notified :
    (e.update f u).notified = true ↔ u.notified = true ∨ e = .announced f := by
  cases e with
  | announced g =>
    by_cases same : g = f <;> simp [update, same, Future.announce]
  | handed g | forgot g | claimed g byClient context | notified g outcome failing =>
    by_cases same : g = f <;>
      simp [update, same, Future.keep, Future.forget, Future.complete, Future.claim]
  | _ => simp [update]

theorem update_kept (h : (e.update f u).kept = true) : u.kept = true ∨ e = .handed f := by
  cases e with
  | handed g =>
    by_cases same : g = f
    · exact .inr (by rw [same])
    · exact .inl (by simpa [update, same] using h)
  | forgot g | claimed g byClient context | notified g outcome failing | announced g =>
    by_cases same : g = f <;>
      simp [update, same, Future.forget, Future.complete, Future.claim, Future.announce] at h
    all_goals exact .inl h
  | _ => exact .inl h

theorem update_callback :
    (e.update f u).callback = if (e.outcomeOf f).isSome then none else u.callback := by
  cases e with
  | handed g | forgot g | claimed g byClient context | notified g outcome failing | announced g =>
    by_cases same : g = f <;>
      simp [update, outcomeOf, same, Future.keep, Future.forget, Future.complete, Future.claim,
        Future.announce]
  | _ => rfl

end Event

/-! ## Records and histories -/

def outcomes (f : FutureId) (history : List Event) : List Outcome :=
  history.filterMap (Event.outcomeOf f)

theorem outcomes_append (f : FutureId) (a b : List Event) :
    outcomes f (a ++ b) = outcomes f a ++ outcomes f b := List.filterMap_append

theorem mem_outcomes {f : FutureId} {history : List Event} {outcome : Outcome} :
    outcome ∈ outcomes f history ↔ ∃ failing, .notified f outcome failing ∈ history := by
  unfold outcomes
  rw [List.mem_filterMap]
  constructor
  · rintro ⟨e, mem, same⟩
    cases e with
    | notified g o failing =>
      simp only [Event.outcomeOf] at same
      split at same <;> cases same
      rename_i eq
      exact ⟨failing, eq ▸ mem⟩
    | _ => cases same
  · rintro ⟨failing, mem⟩
    exact ⟨_, mem, by simp [Event.outcomeOf]⟩

/-- A future is notified as often as there are outcomes. -/
theorem tally_notifies (f : FutureId) (history : List Event) :
    tally (Event.notifies f) history = (outcomes f history).length := by
  induction history with
  | nil => rfl
  | cons e rest ih =>
    have cons : outcomes f (e :: rest) = (e.outcomeOf f).toList ++ outcomes f rest := by
      unfold outcomes
      rw [List.filterMap_cons]
      cases e.outcomeOf f <;> rfl
    rw [tally_cons, ih, cons, List.length_append]
    congr 1
    cases e with
    | notified g outcome failing => by_cases same : g = f <;> simp [one, Event.notifies, Event.outcomeOf, same]
    | _ => rfl

/-- What a history says of the records of futures. -/
structure Recorded (history : List Event) (fs : Futures W) : Prop where
  numbered : ∀ f u, fs.get? f = some u → u.strand.id = f
  /-- The callback is taken out when the outcome is stored. -/
  pending : ∀ f u, fs.get? f = some u → u.callback ≠ none → u.state = none
  births : ∀ f, tally (Event.births f) history = if (fs.get? f).isSome then 1 else 0
  claims : ∀ f, tally (Event.claims f) history = if fs.isClaimed f then 1 else 0
  outcomes : ∀ f, outcomes f history = ((fs.get? f).bind Future.state).toList
  announced : ∀ f u, fs.get? f = some u → (u.notified = true ↔ .announced f ∈ history)
  kept : ∀ f u, fs.get? f = some u → u.kept = true → .handed f ∈ history
  requested : ∀ f, .requested f ∈ history → .handed f ∈ history
  /-- The callback of an omitted argument belongs to the call it was made for. -/
  argument : ∀ f u call, fs.get? f = some u →
    (u.callback.bind Callback.call? = some call ↔
      u.state = none ∧ .argument f (some call) ∈ history)

theorem Recorded.start : Recorded [] ([] : Futures W) where
  numbered f u found := by cases f <;> cases found
  pending f u found := by cases f <;> cases found
  births f := by cases f <;> rfl
  claims f := by cases f <;> rfl
  outcomes f := by cases f <;> rfl
  announced f u found := by cases f <;> cases found
  kept f u found := by cases f <;> cases found
  requested f h := by cases h
  argument f u call found := by cases f <;> cases found

namespace Event.Writes

variable {fs fs' : Futures W} {e : Event} {f : FutureId}

theorem claims_cases (writes : e.Writes fs fs') (f : FutureId) :
    e.claims f = 0 ∨
      e.claims f = 1 ∧ e.births f = 0 ∧ ∃ u, fs.get? f = some u ∧ u.claimed = false := by
  cases e with
  | claimed g byClient context =>
    by_cases same : g = f
    · subst same
      exact .inr ⟨one_self g, rfl, writes.1⟩
    · exact .inl (one_of_ne same)
  | _ => exact .inl rfl

theorem outcomeOf_cases (writes : e.Writes fs fs') (f : FutureId) :
    e.outcomeOf f = none ∨
      ∃ outcome u, e.outcomeOf f = some outcome ∧ e.births f = 0 ∧ fs.get? f = some u ∧
        u.state = none := by
  cases e with
  | notified g outcome failing =>
    by_cases same : g = f
    · subst same
      obtain ⟨⟨u, callback, found, pending, _⟩, _⟩ := writes
      exact .inr ⟨outcome, u, by simp [outcomeOf], rfl, found, pending⟩
    · exact .inl (by simp [outcomeOf, same])
  | _ => exact .inl rfl

/-- A record that is found afterwards was just made, or it is one that was found before, as the
event updates it. -/
theorem found (writes : e.Writes fs fs') {u : Future W} (now : fs'.get? f = some u) :
    (e.births f = 1 ∧ fs.get? f = none ∧ u.Fresh f ∧
        u.callback.bind Callback.call? = e.argumentOf) ∨
      ∃ v, e.births f = 0 ∧ fs.get? f = some v ∧ u = e.update f v := by
  rcases writes.get? f with ⟨birth, nothing, v, made, fresh, callback⟩ | ⟨noBirth, same⟩
  · rw [now] at made
    cases made
    exact .inl ⟨birth, nothing, fresh, callback⟩
  · rw [same] at now
    obtain ⟨v, before, rfl⟩ := Option.map_eq_some_iff.1 now
    exact .inr ⟨v, noBirth, before, rfl⟩

end Event.Writes

namespace Recorded

variable {history : List Event} {fs fs' : Futures W} {e : Event}

theorem births_step (r : Recorded history fs) (writes : e.Writes fs fs') (f : FutureId) :
    tally (Event.births f) (history ++ [e]) = if (fs'.get? f).isSome then 1 else 0 := by
  rw [tally_append, tally_cons, tally_nil, r.births]
  rcases writes.get? f with ⟨birth, nothing, u, found, _⟩ | ⟨noBirth, same⟩
  · simp [birth, nothing, found]
  · rw [noBirth, same]
    simp

theorem claims_step (r : Recorded history fs) (writes : e.Writes fs fs') (f : FutureId) :
    tally (Event.claims f) (history ++ [e]) = if fs'.isClaimed f then 1 else 0 := by
  rw [tally_append, tally_cons, tally_nil, r.claims]
  rcases writes.get? f with ⟨birth, nothing, u, found, fresh, _⟩ | ⟨noBirth, same⟩
  · rcases writes.claims_cases f with none | ⟨_, noBirth, _⟩
    · simp [none, Futures.isClaimed, nothing, found, fresh.claimed]
    · omega
  · unfold Futures.isClaimed
    rw [same]
    rcases writes.claims_cases f with none | ⟨claims, _, u, found, unclaimed⟩
    · cases before : fs.get? f <;> simp [none, Event.update_claimed]
    · simp [claims, found, unclaimed, Event.update_claimed]

theorem outcomes_step (r : Recorded history fs) (writes : e.Writes fs fs') (f : FutureId) :
    Strands.outcomes f (history ++ [e]) = ((fs'.get? f).bind Future.state).toList := by
  have last : Strands.outcomes f [e] = (e.outcomeOf f).toList := by
    simp only [Strands.outcomes, List.filterMap_cons, List.filterMap_nil]
    cases e.outcomeOf f <;> rfl
  rw [outcomes_append, r.outcomes, last]
  rcases writes.get? f with ⟨birth, nothing, u, found, fresh, _⟩ | ⟨noBirth, same⟩
  · rcases writes.outcomeOf_cases f with none | ⟨_, _, _, noBirth, _⟩
    · simp [none, nothing, found, fresh.state]
    · omega
  · rw [same]
    rcases writes.outcomeOf_cases f with none | ⟨outcome, u, some, _, found, pending⟩
    · cases before : fs.get? f <;> simp [none, Event.update_state]
    · simp [some, found, pending, Event.update_state]

theorem announced_step (r : Recorded history fs) (writes : e.Writes fs fs')
    (unborn : ∀ f, Event.announced f ∈ history → Strands.outcomes f history ≠ []) {f : FutureId}
    {u : Future W} (now : fs'.get? f = some u) :
    u.notified = true ↔ .announced f ∈ history ++ [e] := by
  rw [List.mem_append, List.mem_singleton]
  rcases writes.found now with ⟨birth, nothing, fresh, _⟩ | ⟨v, _, before, rfl⟩
  · rw [fresh.notified]
    refine ⟨fun h => (by cases h), ?_⟩
    rintro (earlier | rfl)
    · refine absurd ?_ (unborn f earlier)
      rw [r.outcomes, nothing]
      rfl
    · cases birth
  · rw [Event.update_notified, r.announced f v before]
    exact or_congr_right eq_comm

theorem argument_step (r : Recorded history fs) (writes : e.Writes fs fs') {f : FutureId}
    {u : Future W} (call : FutureId) (now : fs'.get? f = some u) :
    u.callback.bind Callback.call? = some call ↔
      u.state = none ∧ .argument f (some call) ∈ history ++ [e] := by
  rw [List.mem_append, List.mem_singleton]
  rcases writes.found now with ⟨birth, nothing, fresh, callback⟩ | ⟨v, noBirth, before, rfl⟩
  · rw [callback, fresh.state]
    have never : .argument f (some call) ∉ history := fun h => by
      have := le_tally (n := Event.births f) h
      rw [r.births, nothing] at this
      simp [Event.births] at this
    simp only [never, false_or, true_and]
    cases e with
    | argument g made =>
      have : g = f := one_pos (by rw [show one f g = 1 from birth]; omega)
      simp [Event.argumentOf, this, eq_comm]
    | _ => simp [Event.argumentOf]
  · have other : .argument f (some call) ≠ e := fun h => by
      subst h
      simp [Event.births] at noBirth
    simp only [other, or_false]
    rw [Event.update_callback, Event.update_state]
    cases e.outcomeOf f with
    | none => exact r.argument f v call before
    | some outcome => simp

/-- A step with an event extends history and records alike. -/
theorem step (r : Recorded history fs) (writes : e.Writes fs fs')
    (unborn : ∀ f, Event.announced f ∈ history → Strands.outcomes f history ≠ []) :
    Recorded (history ++ [e]) fs' where
  numbered f u now := by
    rcases writes.found now with ⟨_, _, fresh, _⟩ | ⟨v, _, before, rfl⟩
    · exact fresh.strand
    · rw [Event.update_strand]
      exact r.numbered f v before
  pending f u now waits := by
    rcases writes.found now with ⟨_, _, fresh, _⟩ | ⟨v, _, before, rfl⟩
    · exact fresh.state
    · rw [Event.update_callback] at waits
      rw [Event.update_state]
      cases told : e.outcomeOf f with
      | none =>
        rw [told] at waits
        exact r.pending f v before waits
      | some outcome =>
        rw [told] at waits
        exact absurd rfl waits
  births := r.births_step writes
  claims := r.claims_step writes
  outcomes := r.outcomes_step writes
  announced _ _ now := r.announced_step writes unborn now
  kept f u now keeps := by
    rcases writes.found now with ⟨_, _, fresh, _⟩ | ⟨v, _, before, rfl⟩
    · rw [fresh.kept] at keeps
      cases keeps
    · rcases Event.update_kept f e v keeps with earlier | rfl
      · exact List.mem_append_left _ (r.kept f v before earlier)
      · simp
  requested f h := by
    rcases List.mem_append.1 h with earlier | now
    · exact List.mem_append_left _ (r.requested f earlier)
    · rw [List.mem_singleton] at now
      subst now
      obtain ⟨⟨u, found, keeps⟩, _⟩ := writes
      exact List.mem_append_left _ (r.kept f u found keeps)
  argument _ _ call now := r.argument_step writes call now

end Recorded

namespace State.Trace

variable {client : Client W} {workers : Nat} {world : W} {kept : List ObjectId}
  {threads : List (Code W)} {s : State W} {history : List Event}

theorem recorded (trace : Trace client (State.start workers world kept threads) history s) :
    Recorded history s.shared.futures := by
  refine trace.keeps (fun history s => Recorded history s.shared.futures) Recorded.start ?_
  intro before e moment ih
  refine ih.step moment.accounts.futures fun f mem none => ?_
  have law := moment.trace.announce_law f
  have announced := tally_pos_of_mem (n := Event.announces f) mem (one_self f)
  rw [tally_notifies, none, List.length_nil] at law
  omega

end State.Trace
end Strands
