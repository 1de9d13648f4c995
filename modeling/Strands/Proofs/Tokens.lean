/-
Who holds a group's token.

A token that is taken is held in one place: by an entry of the run queue, by the worker
that took the entry off or is in its turn, by a thread that is about to put the group on
the queue, or by one that is about to refuse its jobs.  `State.holders` lists all places
where a group's token is held, and `token_held` says that in every reachable state there
is one of them for a group that is taken and none for any other.  A job waits wherever the
holder counts on one, so that no lane has a job and nobody who will come for it.
-/
import Strands.Proofs.Apart
import Strands.Proofs.RunQueueSteps
import Strands.Proofs.Serial

namespace Strands

variable {W : Type}

/-- A holder of a group's token. -/
inductive Holder where
  /-- An entry of the run queue. -/
  | queue
  /-- A worker that took the group off the queue and has yet to ask for its job. -/
  | visitor (worker : ThreadId)
  /-- A worker in its turn. -/
  | server (worker : ThreadId)
  /-- A thread that is about to put the group on the queue. -/
  | submitter (thread : ThreadId)
  /-- A thread that is about to refuse the group's jobs. -/
  | drainer (thread : ThreadId)
  deriving DecidableEq

/-- Whether the holder counts on a job being there. -/
def Holder.isDue : Holder → Bool
  | queue | visitor _ | submitter _ => true
  | server _ | drainer _ => false

def Frame.holder? (group : GroupId) (thread : ThreadId) : Frame W → Option Holder
  | turn g => if g = group then some (.visitor thread) else none
  | endTurn g => if g = group then some (.server thread) else none
  | submit g _ => if g = group then some (.submitter thread) else none
  | drain g => if g = group then some (.drainer thread) else none
  | _ => none

def Item.holder? (group : GroupId) : Item W → Option Holder
  | .job _ => none
  | .group g => if g = group then some .queue else none

def State.holders (s : State W) (group : GroupId) : List Holder :=
  s.shared.queue.items.filterMap (Item.holder? group) ++
    s.threads.zipIdx.flatMap fun t => t.1.stack.filterMap (Frame.holder? group t.2)

/-- Only workers take turns, only an open queue has groups on it, and lanes are drained only
after the queue was closed. -/
def Holder.Placed (s : State W) : Holder → Prop
  | queue => s.shared.queue.closed = false
  | visitor thread | server thread => ∃ t, s.threads[thread]? = some t ∧ t.worker = true
  | submitter _ => True
  | drainer _ => s.shared.queue.closed = true

/-! ## Counting holders -/

section Counting

variable {group : GroupId}

theorem length_filterMap_of_weigh {α β : Type} {held : α → List Stake} {holder? : α → Option β}
    (same : ∀ a, (holder? a).toList.length = weigh (Stake.tokens group) (held a)) (l : List α) :
    (l.filterMap holder?).length = weigh (Stake.tokens group) (l.flatMap held) := by
  induction l with
  | nil => rfl
  | cons a rest ih =>
    have here := same a
    rw [List.filterMap_cons, List.flatMap_cons, weigh_append, ← ih, ← here]
    cases holder? a <;> simp [Nat.add_comm]

theorem Frame.length_holder? (thread : ThreadId) (frame : Frame W) :
    (frame.holder? group thread).toList.length = weigh (Stake.tokens group) frame.stakes := by
  have free (next : Next W) : weigh (Stake.tokens group) next.stakes = 0 := by
    cases next <;> rfl
  have asked (site : Site W) : weigh (Stake.tokens group) site.stakes = 0 := by
    cases site with
    | omitted lookup | expressions lookup pending => exact free lookup.next
    | _ => rfl
  have busy (role : Role W) : weigh (Stake.tokens group) role.stakes = 0 := by
    cases role with
    | query object site => exact asked site
    | _ => rfl
  cases frame with
  | turn g | endTurn g | submit g asker | drain g =>
    by_cases same : g = group <;> simp [holder?, Stake.tokens, one, same]
  | running role code | waiting role next => exact (busy role).symm
  | query object site => exact (asked site).symm
  | evaluate r => exact ((weigh_cons _ _ _).trans (by rw [free]; rfl)).symm
  | deliver reply => cases reply <;> rfl
  | _ => rfl

/-- Lanes and callbacks hold no tokens. -/
theorem Shared.weigh_tokens (s : Shared W) :
    weigh (Stake.tokens group) s.stakes =
      weigh (Stake.tokens group) (s.queue.items.flatMap fun item => [item.stake]) := by
  have lanes : weigh (Stake.tokens group) (s.groups.flatMap Group.stakes) = 0 := by
    have none (g : Group W) : weigh (Stake.tokens group) g.stakes = 0 := by
      simp [Group.stakes, weigh, Function.comp_def, Stake.tokens]
    simp [weigh_flatMap, none]
  have callbacks : weigh (Stake.tokens group) (s.futures.flatMap Future.stakes) = 0 := by
    have none (u : Future W) : weigh (Stake.tokens group) u.stakes = 0 := by
      unfold Future.stakes
      cases u.callback with
      | none => rfl
      | some callback =>
        cases callback with
        | argument r =>
          have none : 0 = weigh (Stake.tokens group) (Frame.evaluate r).stakes :=
            Frame.length_holder? 0 (.evaluate r)
          exact none.symm
        | _ => rfl
    simp [weigh_flatMap, none]
  rw [stakes, weigh_append, weigh_append, lanes, callbacks, ← List.map_eq_flatMap]
  simp

theorem State.length_holders (s : State W) (group : GroupId) :
    (s.holders group).length = weigh (Stake.tokens group) s.stakes := by
  have item (item : Item W) :
      (item.holder? group).toList.length = weigh (Stake.tokens group) [item.stake] := by
    cases item with
    | job job => rfl
    | group g => by_cases same : g = group <;> simp [Item.holder?, Stake.tokens, one, same]
  have queued := length_filterMap_of_weigh item s.shared.queue.items
  have threads (from_ : Nat) (ts : List (Thread W)) :
      ((ts.zipIdx from_).flatMap fun t => t.1.stack.filterMap (Frame.holder? group t.2)).length =
        weigh (Stake.tokens group) (Thread.stakesOf ts) := by
    induction ts generalizing from_ with
    | nil => rfl
    | cons t rest ih =>
      have own : (t.stack.filterMap (Frame.holder? group from_)).length =
          weigh (Stake.tokens group) (Frame.stakesOf t.stack) :=
        length_filterMap_of_weigh (Frame.length_holder? from_) t.stack
      have split : Thread.stakesOf (t :: rest) =
          Frame.stakesOf t.stack ++ Thread.stakesOf rest := rfl
      rw [List.zipIdx_cons, List.flatMap_cons, List.length_append, ih, own, split, weigh_append]
  rw [holders, List.length_append, queued, threads 0, stakes, weigh_append, Shared.weigh_tokens,
    Nat.add_comm]

theorem State.mem_holders_iff {s : State W} {holder : Holder} :
    holder ∈ s.holders group ↔
      (holder = .queue ∧ group ∈ Item.groups s.shared.queue.items) ∨
      ∃ (thread : ThreadId) (t : Thread W) (frame : Frame W), s.threads[thread]? = some t ∧
        frame ∈ t.stack ∧ frame.holder? group thread = some holder := by
  have queued : holder ∈ s.shared.queue.items.filterMap (Item.holder? group) ↔
      holder = .queue ∧ group ∈ Item.groups s.shared.queue.items := by
    simp only [List.mem_filterMap, Item.groups]
    constructor
    · rintro ⟨item, mem, held⟩
      cases item with
      | job job => cases held
      | group g =>
        obtain ⟨rfl, rfl⟩ : g = group ∧ .queue = holder := by simpa [Item.holder?] using held
        exact ⟨rfl, _, mem, rfl⟩
    · rintro ⟨rfl, item, mem, named⟩
      cases item with
      | job job => cases named
      | group g => exact ⟨_, mem, by simpa [Item.holder?] using named⟩
  rw [holders, List.mem_append, queued]
  simp only [List.mem_flatMap, List.mem_filterMap, List.mem_zipIdx_iff_getElem?, Prod.exists]
  refine or_congr Iff.rfl ⟨?_, ?_⟩
  · rintro ⟨t, thread, found, frame, inStack, held⟩
    exact ⟨thread, t, frame, found, inStack, held⟩
  · rintro ⟨thread, t, frame, found, inStack, held⟩
    exact ⟨t, thread, found, frame, inStack, held⟩

end Counting

/-! ## One holder for each token -/

namespace State

section Holding

variable {client : Client W} {workers : Nat} {world : W} {kept : List ObjectId}
  {threads : List (Code W)} {s : State W} {history : List Event}

theorem Trace.closed_of_mem
    (trace : Trace client (State.start workers world kept threads) history s)
    {futures : List FutureId} (mem : .closed futures ∈ history) :
    s.shared.queue.closed = true := by
  refine trace.keeps
    (fun history s => .closed futures ∈ history → s.shared.queue.closed = true) (by simp) ?_ mem
  intro before e moment ih mem
  rw [moment.accounts.closed]
  rcases List.mem_append.1 mem with earlier | now
  · rw [ih earlier]
    cases e <;> rfl
  · cases List.mem_singleton.1 now
    rfl

theorem Trace.placed_of_holder
    (trace : Trace client (State.start workers world kept threads) history s) {group : GroupId}
    {holder : Holder} (held : holder ∈ s.holders group) : holder.Placed s := by
  rcases mem_holders_iff.1 held with ⟨rfl, queued⟩ | ⟨thread, t, frame, found, inStack, held⟩
  · refine Bool.eq_false_iff.2 fun closed => ?_
    rw [trace.items_of_closed closed] at queued
    cases queued
  · have mem := List.mem_of_getElem? found
    cases frame with
    | turn g | endTurn g =>
      obtain ⟨_, rfl⟩ : g = group ∧ _ = holder := by simpa [Frame.holder?] using held
      exact ⟨t, found, trace.worker_of_isOnRound t mem _ inStack rfl⟩
    | submit g asker =>
      obtain ⟨_, rfl⟩ : g = group ∧ _ = holder := by simpa [Frame.holder?] using held
      trivial
    | drain g =>
      obtain ⟨_, rfl⟩ : g = group ∧ _ = holder := by simpa [Frame.holder?] using held
      obtain ⟨_, _, _, ⟨futures, closed⟩, _⟩ := (trace.grounded t mem).find inStack
      exact trace.closed_of_mem closed
    | _ => cases held

theorem mem_dues_of_holder {group : GroupId} {holder : Holder}
    (held : holder ∈ s.holders group) (due : holder.isDue = true) : group ∈ s.dues := by
  rcases mem_holders_iff.1 held with ⟨rfl, queued⟩ | ⟨thread, t, frame, found, inStack, held⟩
  · exact List.mem_append_right _ queued
  · refine List.mem_append_left _ (List.mem_flatMap.2 ⟨t, List.mem_of_getElem? found, ?_⟩)
    refine List.mem_filterMap.2 ⟨frame, inStack, ?_⟩
    cases frame with
    | turn g | submit g asker =>
      obtain ⟨same, _⟩ : g = group ∧ _ = holder := by simpa [Frame.holder?] using held
      rw [same]
      rfl
    | endTurn g | drain g =>
      obtain ⟨_, rfl⟩ : g = group ∧ _ = holder := by simpa [Frame.holder?] using held
      cases due
    | _ => cases held

/-- In every reachable state a group's token has one holder while it is taken and none
while it is free, and a group whose token is free has no job waiting.  A job waits in a
group that is on the queue, about to be put there, or taken off it and not yet asked for
its job; so a worker that begins a turn finds one. -/
theorem token_held (reachable : Reachable client (State.start workers world kept threads) s) :
    (∀ (group : GroupId) (g : Group W), s.shared.groups[group]? = some g →
      (g.taken = true ↔ ∃ holder, s.holders group = [holder]) ∧
      (g.taken = false ↔ s.holders group = []) ∧
      (g.taken = false → g.jobs = []) ∧
      (g.jobs ≠ [] → ∃ holder, s.holders group = [holder] ∧ holder.Placed s) ∧
      (∀ holder ∈ s.holders group, holder.Placed s ∧
        (holder.isDue = true → g.jobs ≠ []))) ∧
    (∀ group, s.holders group ≠ [] → ∃ g, s.shared.groups[group]? = some g) ∧
    (∀ t ∈ s.threads, ∀ group, .turn group ∈ t.stack →
      ∃ g job, s.shared.groups[group]? = some g ∧ g.next.1 = some job) := by
  obtain ⟨history, trace⟩ := reachable.exists_trace
  have lanes := trace.lanes
  have length (group : GroupId) : (s.holders group).length = (s.shared.isTaken group).toNat :=
    (s.length_holders group).trans (lanes.token group)
  refine ⟨fun group g found => ?_, fun group held => ?_, fun t mem group inStack => ?_⟩
  · have length := length group
    rw [Lanes.isTaken_eq found] at length
    have one : g.taken = true → ∃ holder, s.holders group = [holder] := fun taken => by
      rw [taken] at length
      exact List.length_eq_one_iff.1 length
    refine ⟨⟨one, ?_⟩, ⟨?_, ?_⟩, lanes.free group g found, ?_, ?_⟩
    · rintro ⟨holder, single⟩
      rw [single] at length
      exact Bool.toNat_eq_one.1 length.symm
    · intro free
      rw [free] at length
      exact List.length_eq_zero_iff.1 length
    · intro none
      rw [none] at length
      exact Bool.toNat_eq_zero.1 length.symm
    · intro waiting
      have taken : g.taken = true := by
        by_contra free
        exact waiting (lanes.free group g found (Bool.eq_false_iff.2 free))
      obtain ⟨holder, single⟩ := one taken
      have held : holder ∈ s.holders group := by simp [single]
      exact ⟨holder, single, trace.placed_of_holder held⟩
    · intro holder held
      refine ⟨trace.placed_of_holder held, fun due => ?_⟩
      obtain ⟨g', found', waiting⟩ := trace.laden group (mem_dues_of_holder held due)
      rw [found] at found'
      cases found'
      exact waiting
  · have length := length group
    unfold Shared.isTaken at length
    cases found : s.shared.groups[group]? with
    | some g => exact ⟨g, rfl⟩
    | none =>
      rw [found] at length
      exact absurd (List.length_eq_zero_iff.1 length) held
  · have due : group ∈ s.dues :=
      List.mem_append_left _ (List.mem_flatMap.2 ⟨t, mem, List.mem_filterMap.2 ⟨_, inStack, rfl⟩⟩)
    obtain ⟨g, found, waiting⟩ := trace.laden group due
    obtain ⟨job, rest, jobs⟩ := List.exists_cons_of_ne_nil waiting
    exact ⟨g, job, found, by simp [Group.next, jobs]⟩

end Holding

/-- A client has put two units on one lane, and the worker has yet to look. -/
def twoUnitsWaiting : State Unit :=
  ((State.start 1 () [1, 2] [twoUnits]).replay (Sample.client Sample.value)
    (List.replicate 60 1)).2

theorem token_held_twoUnitsWaiting :
    twoUnitsWaiting.holders 0 = [.queue] ∧
    ∃ g : Group Unit, twoUnitsWaiting.shared.groups[0]? = some g ∧ g.taken = true ∧
      g.jobs ≠ [] := by
  have reachable : Reachable (Sample.client Sample.value) (State.start 1 () [1, 2] [twoUnits])
      twoUnitsWaiting := (trace_replay _ _ _).reachable
  have queued : twoUnitsWaiting.holders 0 = [.queue] := by decide +kernel
  obtain ⟨each, known, _⟩ := token_held reachable
  obtain ⟨g, found⟩ := known 0 (by simp [queued])
  obtain ⟨taken, _, _, _, due⟩ := each 0 g found
  exact ⟨queued, g, found, taken.2 ⟨_, queued⟩, (due .queue (by simp [queued])).2 rfl⟩

end State
end Strands
