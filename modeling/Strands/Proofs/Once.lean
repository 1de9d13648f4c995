/-
What happens at most once.

A future is made once, bound once and notified once.  Whoever comes late to bind it
finds it bound, and whoever comes late to complete it finds it complete.

A future is `Taken` if an invocation got it and a client then bound it to a unit of
its own.  `Trace.course_le` says of any other future that at most one thing is under
way that will complete it, and that nothing is once it is complete.
-/
import Strands.Proofs.Record

namespace Strands

variable {W : Type}

theorem tally_le_tally {m n : Event → Nat} (h : ∀ e, m e ≤ n e) (history : List Event) :
    tally m history ≤ tally n history := by
  induction history with
  | nil => exact Nat.le_refl _
  | cons e rest ih =>
    have := h e
    rw [tally_cons, tally_cons]
    omega

/-- An invocation got the future, and then a client bound it to a unit of its own. -/
def Taken (history : List Event) (f : FutureId) : Prop :=
  (∃ fault context, .opened f fault context ∈ history) ∧
    ∃ context, .claimed f true context ∈ history

theorem Taken.mono {a b : List Event} {f : FutureId} (h : Taken a f) : Taken (a ++ b) f := by
  obtain ⟨⟨fault, context, opened⟩, context', claimed⟩ := h
  exact ⟨⟨fault, context, List.mem_append_left _ opened⟩, context',
    List.mem_append_left _ claimed⟩

namespace Event

variable {f : FutureId} {e : Event}

theorem of_opens (h : 0 < e.opens f) : ∃ fault context, e = .opened f fault context := by
  cases e with
  | opened g fault context => exact ⟨fault, context, by rw [one_pos h]⟩
  | _ => cases h

theorem of_takes (h : 0 < e.takes f) : ∃ context, e = .claimed f true context := by
  cases e with
  | claimed g byClient context =>
    cases byClient with
    | true => exact ⟨context, by rw [one_pos h]⟩
    | false => cases h
  | _ => cases h

theorem of_claims (h : 0 < e.claims f) : ∃ byClient context, e = .claimed f byClient context := by
  cases e with
  | claimed g byClient context => exact ⟨byClient, context, by rw [one_pos h]⟩
  | _ => cases h

theorem of_requests (h : 0 < e.requests f) : e = .requested f := by
  cases e with
  | requested g => rw [one_pos h]
  | _ => cases h

theorem of_rejects (h : 0 < e.rejects f) : e = .rejected f false := by
  cases e with
  | rejected g byClient =>
    cases byClient with
    | false => rw [one_pos h]
    | true => cases h
  | _ => cases h

theorem of_ignores (h : 0 < e.ignores f) : e = .ignored f := by
  cases e with
  | ignored g => rw [one_pos h]
  | _ => cases h

theorem of_ends (h : 0 < e.ends f) : ∃ outcome, e = .ended f outcome := by
  cases e with
  | ended g outcome => exact ⟨outcome, by rw [one_pos h]⟩
  | _ => cases h

theorem of_notifies (h : 0 < e.notifies f) :
    ∃ outcome failing, e = .notified f outcome failing := by
  cases e with
  | notified g outcome failing => exact ⟨outcome, failing, by rw [one_pos h]⟩
  | _ => cases h

theorem of_announces (h : 0 < e.announces f) : e = .announced f := by
  cases e with
  | announced g => rw [one_pos h]
  | _ => cases h

theorem births_eq (f : FutureId) (e : Event) : e.births f = e.serves f + e.spares f := by
  cases e <;> simp [births, serves, spares]

theorem begins_eq (f : FutureId) (e : Event) : e.begins f = e.opens f + e.spares f := by
  cases e <;> simp [begins, opens, spares]

theorem opens_le_serves (f : FutureId) (e : Event) : e.opens f ≤ e.serves f := by
  cases e <;> simp [opens, serves]

theorem begins_le_births (f : FutureId) (e : Event) : e.begins f ≤ e.births f := by
  rw [births_eq, begins_eq]
  have := opens_le_serves f e
  omega

theorem takes_le_claims (f : FutureId) (e : Event) : e.takes f ≤ e.claims f := by
  cases e with
  | claimed g byClient context => cases byClient <;> simp [takes, claims]
  | _ => exact Nat.le_refl _

end Event

theorem taken_iff {history : List Event} {f : FutureId} :
    Taken history f ↔ 0 < tally (Event.opens f) history ∧ 0 < tally (Event.takes f) history := by
  constructor
  · rintro ⟨⟨fault, context, opened⟩, context', claimed⟩
    have opens := tally_pos_of_mem (n := Event.opens f) opened (one_self f)
    have takes := tally_pos_of_mem (n := Event.takes f) claimed (one_self f)
    omega
  · rintro ⟨opens, takes⟩
    obtain ⟨e, mem, pos⟩ := tally_pos opens
    obtain ⟨e', mem', pos'⟩ := tally_pos takes
    obtain ⟨fault, context, rfl⟩ := Event.of_opens pos
    obtain ⟨context', rfl⟩ := Event.of_takes pos'
    exact ⟨⟨fault, context, mem⟩, context', mem'⟩

instance (history : List Event) (f : FutureId) : Decidable (Taken history f) :=
  decidable_of_iff _ taken_iff.symm

namespace State.Trace

variable {client : Client W} {workers : Nat} {world : W} {kept : List ObjectId}
  {threads : List (Code W)} {s : State W} {history : List Event}

section

variable (trace : Trace client (State.start workers world kept threads) history s) (f : FutureId)

include trace

theorem births_le : tally (Event.births f) history ≤ 1 := by
  rw [trace.recorded.births]
  split <;> omega

theorem eq_of_births {e e' : Event} (mem : e ∈ history) (mem' : e' ∈ history)
    (born : e.births f = 1) (born' : e'.births f = 1) : e = e' :=
  eq_of_tally_le_one (trace.births_le f) mem mem' (by omega) (by omega)

theorem claims_le : tally (Event.claims f) history ≤ 1 := by
  rw [trace.recorded.claims]
  split <;> omega

theorem notifies_le : tally (Event.notifies f) history ≤ 1 := by
  rw [tally_notifies, trace.recorded.outcomes]
  cases (s.shared.futures.get? f).bind Future.state <;> simp

/-- A future is made for a client or for the scheduler, not for both. -/
theorem serves_spares_le : tally (Event.serves f) history + tally (Event.spares f) history ≤ 1 := by
  rw [← tally_add]
  have births := trace.births_le f
  rw [show Event.births f = fun e => e.serves f + e.spares f from funext (Event.births_eq f)]
    at births
  exact births

/-- A record is there if the future was made. -/
theorem exists_record (h : 0 < tally (Event.births f) history) :
    ∃ u, s.shared.futures.get? f = some u := by
  rw [trace.recorded.births] at h
  split at h
  · exact Option.isSome_iff_exists.1 ‹_›
  · omega

theorem exists_record_of_claims (h : 0 < tally (Event.claims f) history) :
    ∃ u, s.shared.futures.get? f = some u ∧ u.claimed = true := by
  rw [trace.recorded.claims] at h
  split at h
  · rename_i claimed
    unfold Futures.isClaimed at claimed
    cases found : s.shared.futures.get? f with
    | none => simp [found] at claimed
    | some u => exact ⟨u, rfl, by simpa [found] using claimed⟩
  · omega

theorem exists_record_of_course (h : 0 < tally (fun e => e.takes f + e.begins f) history) :
    ∃ u, s.shared.futures.get? f = some u := by
  rw [tally_add] at h
  have takes := tally_le_tally (Event.takes_le_claims f) history
  have begins := tally_le_tally (Event.begins_le_births f) history
  by_cases claimed : 0 < tally (Event.claims f) history
  · obtain ⟨u, found, _⟩ := trace.exists_record_of_claims f claimed
    exact ⟨u, found⟩
  · exact trace.exists_record f (by omega)

/-- Only what is bound already is turned away. -/
theorem claims_of_rejects (h : 0 < tally (Event.rejects f) history) :
    0 < tally (Event.claims f) history := by
  obtain ⟨e, mem, pos⟩ := tally_pos h
  obtain rfl := Event.of_rejects pos
  obtain ⟨before, after, rfl⟩ := List.append_of_mem mem
  obtain ⟨moment⟩ := trace.split
  have course := moment.trace'.course_law f
  have here : Event.takes f (.rejected f false) + Event.begins f (.rejected f false) = 0 := rfl
  have rejects : Event.rejects f (.rejected f false) = 1 := one_self f
  simp only [tally_append, tally_cons, tally_nil] at course
  obtain ⟨u, found⟩ := moment.trace.exists_record_of_course f (by omega)
  have claimed := moment.accounts.futures.1 u found
  have claims := moment.trace.recorded.claims f
  simp only [Futures.isClaimed, found, Option.map_some, Option.getD_some, claimed, if_true]
    at claims
  rw [tally_append]
  omega

/-- Only what is complete already is completed in vain. -/
theorem notifies_of_ignores (h : 0 < tally (Event.ignores f) history) :
    0 < tally (Event.notifies f) history := by
  obtain ⟨e, mem, pos⟩ := tally_pos h
  obtain rfl := Event.of_ignores pos
  obtain ⟨before, after, rfl⟩ := List.append_of_mem mem
  obtain ⟨moment⟩ := trace.split
  have course := moment.trace'.course_law f
  have here : Event.takes f (.ignored f) + Event.begins f (.ignored f) = 0 := rfl
  have ignores : Event.ignores f (.ignored f) = 1 := one_self f
  simp only [tally_append, tally_cons, tally_nil] at course
  obtain ⟨u, found⟩ := moment.trace.exists_record_of_course f (by omega)
  obtain ⟨outcome, complete⟩ := Option.isSome_iff_exists.1 (moment.accounts.futures.1 u found)
  have outcomes := moment.trace.recorded.outcomes f
  rw [found, Option.bind_some, complete] at outcomes
  have notifies := tally_notifies f before
  rw [outcomes] at notifies
  rw [tally_append, notifies, Option.toList_some, List.length_singleton]
  omega

theorem hands_of_takes (h : 0 < tally (Event.takes f) history) :
    .handed f ∈ history := by
  have law := trace.request_law f
  rw [tally_add] at law
  have requests : 0 < tally (Event.requests f) history := by omega
  obtain ⟨e, mem, pos⟩ := tally_pos requests
  obtain rfl := Event.of_requests pos
  exact trace.recorded.requested f mem

/-- A unit is bound once, counted once, put on the queue or a lane once, and run or
refused once. -/
theorem runs_le : tally (Event.runs f) history + tally (Event.clears f) history +
    tally (Event.refuses f) history ≤ 1 := by
  have claims := trace.claims_le f
  have bound := trace.bound_law f
  have hand := trace.hand_law f
  have job := trace.job_law f
  rw [tally_add] at hand job
  omega

theorem queues_le : tally (Event.queues f) history ≤ 1 := by
  have claims := trace.claims_le f
  have bound := trace.bound_law f
  have hand := trace.hand_law f
  rw [tally_add] at hand
  omega

theorem replies_of_handed (h : .handed f ∈ history) :
    weigh (Stake.replies f) s.stakes = 0 := by
  have law := trace.reply_law f
  have once := trace.serves_spares_le f
  have handed := tally_pos_of_mem (n := Event.hands f) h (one_self f)
  omega

/-- What a client was handed was made for it. -/
theorem spares_of_handed (h : .handed f ∈ history) : tally (Event.spares f) history = 0 := by
  have law := trace.reply_law f
  have once := trace.serves_spares_le f
  have handed := tally_pos_of_mem (n := Event.hands f) h (one_self f)
  omega

theorem exists_record_of_handed (h : .handed f ∈ history) :
    ∃ u, s.shared.futures.get? f = some u := by
  have law := trace.reply_law f
  have handed := tally_pos_of_mem (n := Event.hands f) h (one_self f)
  refine trace.exists_record f ?_
  have serves : tally (Event.serves f) history ≤ tally (Event.births f) history :=
    tally_le_tally (fun e => by rw [Event.births_eq]; exact Nat.le_add_right _ _) history
  omega

theorem course_le (untaken : ¬ Taken history f) :
    tally (fun e => e.takes f + e.begins f) history ≤ 1 := by
  have claims := trace.claims_le f
  have births := trace.births_le f
  have takes := tally_le_tally (Event.takes_le_claims f) history
  have begins := tally_le_tally (Event.begins_le_births f) history
  rw [tally_add]
  by_cases taken : 0 < tally (Event.takes f) history
  · have spares := trace.spares_of_handed f (trace.hands_of_takes f taken)
    have opens : ¬ 0 < tally (Event.opens f) history := fun h => untaken (taken_iff.2 ⟨h, taken⟩)
    have split : tally (Event.begins f) history =
        tally (Event.opens f) history + tally (Event.spares f) history := by
      rw [← tally_add]
      exact congrArg (tally · history) (funext (Event.begins_eq f))
    omega
  · omega

theorem course_balance (untaken : ¬ Taken history f) :
    weigh (fun stake => stake.chain f + stake.work f) s.stakes +
      tally (Event.notifies f) history ≤ 1 := by
  have law := trace.course_law f
  have once := trace.course_le f untaken
  rw [tally_add, tally_add] at law
  omega

/-- A future that is about to be handed over is not taken. -/
theorem untaken_of_reply (held : 0 < weigh (Stake.replies f) s.stakes) : ¬ Taken history f := by
  intro taken
  have none := trace.replies_of_handed f (trace.hands_of_takes f (taken_iff.1 taken).2)
  omega

theorem untaken_of_spares (spared : 0 < tally (Event.spares f) history) : ¬ Taken history f := by
  intro taken
  have none := trace.spares_of_handed f (trace.hands_of_takes f (taken_iff.1 taken).2)
  omega

theorem pending_of_course (untaken : ¬ Taken history f)
    (held : 0 < weigh (fun stake => stake.chain f + stake.work f) s.stakes) :
    ∃ u, s.shared.futures.get? f = some u ∧ u.state = none := by
  have law := trace.course_law f
  have balance := trace.course_balance f untaken
  obtain ⟨u, found⟩ := trace.exists_record_of_course f (by omega)
  have notifies := tally_notifies f history
  rw [trace.recorded.outcomes f, found, Option.bind_some] at notifies
  cases state : u.state with
  | none => exact ⟨u, found, state⟩
  | some outcome =>
    rw [state, Option.toList_some, List.length_singleton] at notifies
    omega

theorem unclaimed_of_chain (untaken : ¬ Taken history f)
    (held : 0 < weigh (Stake.chain f) s.stakes) :
    ∃ u, s.shared.futures.get? f = some u ∧ u.claimed = false := by
  have law := trace.course_law f
  have work := trace.work_law f
  have balance := trace.course_balance f untaken
  have split : weigh (fun stake => stake.chain f + stake.work f) s.stakes =
      weigh (Stake.chain f) s.stakes + weigh (Stake.work f) s.stakes := weigh_add _ _ _
  obtain ⟨u, found⟩ := trace.exists_record_of_course f (by omega)
  have late : ¬ 0 < tally (Event.ignores f) history := fun ignored => by
    have := trace.notifies_of_ignores f ignored
    omega
  have claims := trace.recorded.claims f
  rw [tally_add, tally_add, tally_add] at work
  refine ⟨u, found, Bool.eq_false_iff.2 fun claimed => ?_⟩
  simp only [Futures.isClaimed, found, Option.map_some, Option.getD_some, claimed, if_true]
    at claims
  omega

end

end State.Trace
end Strands
