/-
Histories and what they add up to.

`Trace.split` takes a trace apart at any of its events.  `Trace.law` is the law of
conservation that all counting rests on: if what an event brings in exceeds what it
takes away by `B - A`, then the stakes of a state weigh as much as the `B`s of its
history exceed the `A`s.
-/
import Strands.Proofs.StepAccounts

namespace Strands

variable {W : Type}

/-! ## Adding up over a history -/

def tally (n : Event → Nat) (history : List Event) : Nat := (history.map n).sum

@[simp] theorem tally_nil (n : Event → Nat) : tally n [] = 0 := rfl

@[simp] theorem tally_append (n : Event → Nat) (a b : List Event) :
    tally n (a ++ b) = tally n a + tally n b := by
  simp [tally]

@[simp] theorem tally_cons (n : Event → Nat) (e : Event) (history : List Event) :
    tally n (e :: history) = n e + tally n history := by
  simp [tally]

theorem tally_add (m n : Event → Nat) (history : List Event) :
    tally (fun e => m e + n e) history = tally m history + tally n history := by
  induction history with
  | nil => rfl
  | cons e rest ih =>
    rw [tally_cons, tally_cons, tally_cons, ih]
    omega

theorem le_sum_map {α : Type} {n : α → Nat} {l : List α} {a : α} (h : a ∈ l) :
    n a ≤ (l.map n).sum := by
  obtain ⟨before, after, rfl⟩ := List.append_of_mem h
  rw [List.map_append, List.map_cons, List.sum_append, List.sum_cons]
  omega

/-- Two elements of a list count for no more than all of them. -/
theorem add_le_sum_map {α : Type} {n : α → Nat} {l : List α} {a b : α} (ha : a ∈ l) (hb : b ∈ l)
    (ne : a ≠ b) : n a + n b ≤ (l.map n).sum := by
  obtain ⟨before, after, rfl⟩ := List.append_of_mem ha
  rw [List.mem_append, List.mem_cons] at hb
  rw [List.map_append, List.map_cons, List.sum_append, List.sum_cons]
  rcases hb with earlier | same | later
  · have := le_sum_map (n := n) earlier
    omega
  · exact absurd same.symm ne
  · have := le_sum_map (n := n) later
    omega

theorem le_tally {n : Event → Nat} {history : List Event} {e : Event} (h : e ∈ history) :
    n e ≤ tally n history := le_sum_map h

theorem tally_pos_of_mem {n : Event → Nat} {history : List Event} {e : Event} (h : e ∈ history)
    (counts : n e = 1) : 0 < tally n history := by
  have := le_tally (n := n) h
  omega

theorem add_le_tally {n : Event → Nat} {history : List Event} {e e' : Event} (h : e ∈ history)
    (h' : e' ∈ history) (ne : e ≠ e') : n e + n e' ≤ tally n history :=
  add_le_sum_map h h' ne

/-- An event that a test tells from all others is found by it. -/
theorem any_iff_mem {test : Event → Bool} {e : Event} (tells : ∀ e', test e' = true ↔ e' = e)
    {history : List Event} : history.any test = true ↔ e ∈ history := by
  simp [List.any_eq_true, tells]

theorem tally_pos {n : Event → Nat} {history : List Event} (h : 0 < tally n history) :
    ∃ e ∈ history, 0 < n e := by
  induction history with
  | nil => simp at h
  | cons e rest ih =>
    rw [tally_cons] at h
    by_cases here : 0 < n e
    · exact ⟨e, by simp, here⟩
    · obtain ⟨e', mem, pos⟩ := ih (by omega)
      exact ⟨e', by simp [mem], pos⟩

/-! ## Stakes of lists of jobs -/

def one (future g : FutureId) : Nat := if g = future then 1 else 0

@[simp] theorem one_self (future : FutureId) : one future future = 1 := by simp [one]

theorem one_le (future g : FutureId) : one future g ≤ 1 := by
  unfold one
  split <;> omega

theorem one_pos {future g : FutureId} (h : 0 < one future g) : g = future := by
  unfold one at h
  split at h
  · assumption
  · omega

theorem one_of_ne {future g : FutureId} (h : g ≠ future) : one future g = 0 := by
  simp [one, h]

@[simp] theorem sum_map_one (future : FutureId) (futures : List FutureId) :
    (futures.map (one future)).sum = futures.count future := by
  induction futures with
  | nil => rfl
  | cons g rest ih =>
    rw [List.map_cons, List.sum_cons, ih, List.count_cons, one]
    by_cases same : g = future <;> simp [same, Nat.add_comm]

@[simp] theorem weigh_jobs (w : Stake → Nat) (futures : List FutureId) :
    weigh w (futures.map Stake.job) = (futures.map fun g => w (.job g)).sum := by
  rw [weigh, List.map_map]
  rfl

@[simp] theorem weigh_refusals (w : Stake → Nat) (futures : List FutureId) :
    weigh w (refusals futures) = (futures.map fun g => w (.settle g) + w .guard).sum := by
  induction futures with
  | nil => rfl
  | cons g rest ih =>
    have first : refusals (g :: rest) = .settle g :: .guard :: refusals rest := rfl
    rw [first, weigh_cons, weigh_cons, ih, List.map_cons, List.sum_cons, Nat.add_assoc]

theorem weigh_add {α : Type} (w v : α → Nat) (held : List α) :
    weigh (fun a => w a + v a) held = weigh w held + weigh v held := by
  induction held with
  | nil => rfl
  | cons a rest ih =>
    rw [weigh_cons, weigh_cons, weigh_cons, ih]
    omega

theorem weigh_le_weigh {w v : Stake → Nat} (h : ∀ stake, w stake ≤ v stake) (stakes : List Stake) :
    weigh w stakes ≤ weigh v stakes := by
  induction stakes with
  | nil => exact Nat.le_refl _
  | cons stake rest ih =>
    have := h stake
    rw [weigh_cons, weigh_cons]
    omega

theorem weigh_flatMap {α : Type} (w : Stake → Nat) (held : α → List Stake) (l : List α) :
    weigh w (l.flatMap held) = (l.map fun a => weigh w (held a)).sum := by
  induction l with
  | nil => rfl
  | cons a rest ih => rw [List.flatMap_cons, weigh_append, ih, List.map_cons, List.sum_cons]

theorem weigh_pos {α : Type} {w : α → Nat} {held : List α} (h : 0 < weigh w held) :
    ∃ a ∈ held, 0 < w a := by
  induction held with
  | nil => simp at h
  | cons a rest ih =>
    rw [weigh_cons] at h
    by_cases here : 0 < w a
    · exact ⟨a, by simp, here⟩
    · obtain ⟨other, mem, pos⟩ := ih (by omega)
      exact ⟨other, by simp [mem], pos⟩

theorem le_weigh {α : Type} {w : α → Nat} {held : List α} {a : α} (h : a ∈ held) :
    w a ≤ weigh w held := le_sum_map h

theorem weigh_pos_of_mem {w : Stake → Nat} {stakes : List Stake} {stake : Stake}
    (h : stake ∈ stakes) (counts : w stake = 1) : 0 < weigh w stakes := by
  have := le_weigh (w := w) h
  omega

namespace State

/-! ## Traces taken apart -/

/-- What led to one event of a history, and the step it stands for. -/
structure Moment (client : Client W) (start : State W) (before : List Event) (e : Event) where
  s : State W
  s' : State W
  thread : ThreadId
  choice : Choice
  trace : Trace client start before s
  taken : s.step client thread choice = some s'
  event : s.event client thread = e

namespace Moment

variable {client : Client W} {start : State W} {before : List Event} {e : Event}

theorem trace' (moment : Moment client start before e) :
    Trace client start (before ++ [e]) moment.s' := by
  obtain ⟨s, s', thread, choice, trace, taken, rfl⟩ := moment
  exact trace.step taken

theorem accounts (moment : Moment client start before e) :
    Accounts moment.s moment.s' e := by
  obtain ⟨s, s', thread, choice, trace, taken, rfl⟩ := moment
  exact step_accounts taken

end Moment

namespace Trace

variable {client : Client W} {start s : State W} {history : List Event}

/-- Every event of a trace has its moment. -/
theorem split {before after : List Event} {e : Event}
    (trace : Trace client start (before ++ e :: after) s) :
    Nonempty (Moment client start before e) := by
  generalize eq : before ++ e :: after = history at trace
  induction trace generalizing after with
  | start => simp at eq
  | @step history s s' thread choice trace taken ih =>
    rcases List.eq_nil_or_concat after with rfl | ⟨rest, last, rfl⟩
    · have split := List.append_inj' eq rfl
      obtain ⟨rfl, same⟩ := split
      exact ⟨⟨s, s', thread, choice, trace, taken, (List.cons.inj same).1.symm⟩⟩
    · have split : (before ++ e :: rest) ++ [last] = history ++ [s.event client thread] := by
        simpa using eq
      obtain ⟨same, _⟩ := List.append_inj' split rfl
      exact ih same

theorem ofPrefix {before after : List Event} (trace : Trace client start (before ++ after) s) :
    ∃ s', Trace client start before s' := by
  cases after with
  | nil => exact ⟨s, by simpa using trace⟩
  | cons e rest =>
    obtain ⟨moment⟩ := trace.split
    exact ⟨moment.s, moment.trace⟩

/-- What holds at the start and is kept by every step holds of every trace. -/
theorem keeps (trace : Trace client start history s) (motive : List Event → State W → Prop)
    (first : motive [] start)
    (next : ∀ before e, ∀ moment : Moment client start before e,
      motive before moment.s → motive (before ++ [e]) moment.s') :
    motive history s := by
  induction trace with
  | start => exact first
  | step trace taken ih => exact next _ _ ⟨_, _, _, _, trace, taken, rfl⟩ ih

end Trace

/-! ## Conservation -/

/-- Nothing is held at the start. -/
theorem stakes_start (workers : Nat) (world : W) (kept : List ObjectId) (threads : List (Code W)) :
    (State.start workers world kept threads).stakes = [] := by
  have idle : Thread.stakesOf (List.replicate workers (State.worker : Thread W)) = [] := by
    simp [Thread.stakesOf, State.worker]
  have clients : Thread.stakesOf (threads.map clientThread) = [] := by
    simp [Thread.stakesOf, clientThread]
  simp only [Thread.stakesOf] at idle clients
  simp [stakes, start, Thread.stakesOf, Shared.stakes, idle, clients]

section Conservation

variable {client : Client W} {workers : Nat} {world : W} {kept : List ObjectId}
  {threads : List (Code W)} {s : State W} {history : List Event}

/-- The law of conservation. -/
theorem Trace.law (trace : Trace client (State.start workers world kept threads) history s)
    (w : Stake → Nat) (A B : Event → Nat)
    (pointwise : ∀ e : Event, weigh w e.made + A e = weigh w e.gone + B e) :
    weigh w s.stakes + tally A history = tally B history := by
  refine trace.keeps (fun history s => weigh w s.stakes + tally A history = tally B history) ?_ ?_
  · rw [stakes_start]
    rfl
  · intro before e moment ih
    have balance := moment.accounts.stakes w
    have here := pointwise e
    simp only [tally_append, tally_cons, tally_nil]
    omega

end Conservation
end State
end Strands
