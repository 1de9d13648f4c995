/-
Who is to give back the shares of the count of work in flight.

A call whose argument is being computed has its share in the callback of the argument's
future, and not on any stack.  But that future is on its way to being completed, once, and
whoever completes it goes on with the call.  So the share is put down to the stake that
pursues the future: `Stake.load`.  The count of work in flight is then the load of the stacks,
the run queue and the lanes (`Trace.load_law`), and a step leaves the load of all that it does
not touch (`load_others`).
-/
import Mathlib.Algebra.BigOperators.Group.Finset.Basic
import Strands.Proofs.Activity
import Strands.Proofs.LaneUnits
import Strands.Proofs.Pipeline
import Strands.Proofs.Quiesce

namespace Strands

variable {W : Type}

def Futures.calls (fs : Futures W) (g : FutureId) : Nat :=
  (((fs.get? g).bind Future.callback).bind Callback.call?).isSome.toNat

namespace Stake

def pursued? : Stake → Option FutureId
  | attempt g _ | bound g _ | hand g | job g | unit g | settle g => some g
  | _ => none

def pursues (g : FutureId) (stake : Stake) : Nat := (stake.pursued? = some g : Bool).toNat

def load (fs : Futures W) (stake : Stake) : Nat :=
  stake.share + (stake.pursued?.map fs.calls).getD 0

end Stake

def Shared.waiting (s : Shared W) : List Stake :=
  s.queue.items.map Item.stake ++ s.groups.flatMap Group.stakes

/-! ## The load of a state -/

section Sums

variable (fs : Futures W)

theorem Futures.calls_le (g : FutureId) : fs.calls g ≤ 1 := Bool.toNat_le _

variable {fs} in
theorem Futures.calls_of_none {g : FutureId} (none : fs.get? g = none) : fs.calls g = 0 := by
  rw [calls, none]
  rfl

theorem Stake.calls_pursued (stake : Stake) :
    (stake.pursued?.map fs.calls).getD 0 =
      ∑ n ∈ Finset.range fs.length, fs.calls (n + 1) * stake.pursues (n + 1) := by
  cases pursued : stake.pursued? with
  | none => simp [pursues, pursued]
  | some g =>
    have other (n : Nat) (different : n + 1 ≠ g) :
        fs.calls (n + 1) * stake.pursues (n + 1) = 0 := by
      simp [pursues, pursued, Ne.symm different]
    have own : stake.pursues g = 1 := by simp [pursues, pursued]
    cases g with
    | zero =>
      rw [Finset.sum_eq_zero fun n _ => other n (Nat.succ_ne_zero n)]
      rfl
    | succ m =>
      by_cases bound : m < fs.length
      · rw [Finset.sum_eq_single_of_mem m (Finset.mem_range.2 bound)
          fun n _ different => other n fun same => different (Nat.succ.inj same), own]
        simp
      · have none : fs.calls (m + 1) = 0 :=
          Futures.calls_of_none (List.getElem?_eq_none (Nat.le_of_not_lt bound))
        rw [Finset.sum_eq_zero fun n mem => other n fun same => by
          have := Finset.mem_range.1 mem
          omega]
        simpa using none

theorem weigh_load (stakes : List Stake) :
    weigh (Stake.load fs) stakes = weigh Stake.share stakes +
      ∑ n ∈ Finset.range fs.length, fs.calls (n + 1) * weigh (Stake.pursues (n + 1)) stakes := by
  induction stakes with
  | nil => simp
  | cons stake rest ih =>
    simp only [weigh_cons, Nat.mul_add, Finset.sum_add_distrib, ih, Stake.load,
      Stake.calls_pursued]
    omega

theorem Shared.share_of_calls (s : Shared W) :
    weigh Stake.share (s.futures.flatMap Future.stakes) =
      ∑ n ∈ Finset.range s.futures.length, s.futures.calls (n + 1) := by
  rw [share_of_futures]
  induction s.futures with
  | nil => rfl
  | cons u rest ih =>
    have first : Futures.calls (u :: rest) (0 + 1) =
        (u.callback.bind Callback.call?).isSome.toNat := rfl
    have others (n : Nat) : Futures.calls (u :: rest) (n + 1 + 1) = Futures.calls rest (n + 1) :=
      rfl
    rw [List.length_cons, Finset.sum_range_succ', first, List.countP_cons, ih]
    simp only [others]
    cases (u.callback.bind Callback.call?).isSome <;> rfl

end Sums

theorem Acted.settle_of_notified {client : Client W} {s s' : State W} {thread : ThreadId}
    {choice : Choice} (acted : Acted client s s' thread choice) {g : FutureId} {outcome : Outcome}
    {failing : Option FutureId}
    (notified : s.event client thread = .notified g outcome failing) :
    acted.top = [.settle g outcome] := by
  have move := acted.move
  rw [acted.event] at notified
  generalize acted.progress = p at move
  generalize acted.top = top at move notified
  cases move with
  | receive reply role next => cases reply <;> cases notified
  | pass => cases notified
  | act moved => rw [(Frame.of_notified notified).1]

namespace Acted

variable {client : Client W} {s s' : State W} {thread : ThreadId} {choice : Choice}
  (acted : Acted client s s' thread choice) (w : Stake → Nat)

theorem weigh_threads : weigh w (Thread.stakesOf s.threads) =
    weigh w (Frame.stakesOf acted.top) + weigh w (Frame.stakesOf acted.others) := by
  rw [acted.threads]
  simp only [Thread.stakesOf, others, Frame.stakesOf, List.flatMap_append, List.flatMap_cons,
    acted.stack, weigh_append, List.flatMap_assoc]
  omega

theorem weigh_threads' : weigh w (Thread.stakesOf s'.threads) =
    weigh w (Frame.stakesOf acted.progress.frames) + weigh w (Frame.stakesOf acted.others) := by
  have spawned : (acted.progress.spawned.map State.clientThread).flatMap
      (fun t => Frame.stakesOf t.stack) = [] := by
    simp [State.clientThread]
  rw [acted.threads', Thread.stakesOf, List.flatMap_append, spawned]
  simp only [others, Frame.stakesOf, List.flatMap_append, List.flatMap_cons, weigh_append,
    weigh_nil, List.flatMap_assoc]
  omega

end Acted

namespace State

variable {client : Client W} {workers : Nat} {world : W} {kept : List ObjectId}
  {threads : List (Code W)} {s s' : State W} {history : List Event}

def working (s : State W) : List Stake := Thread.stakesOf s.threads ++ s.shared.waiting

theorem weigh_stakes (w : Stake → Nat) :
    weigh w s.stakes = weigh w s.working + weigh w (s.shared.futures.flatMap Future.stakes) := by
  simp only [stakes, working, Shared.stakes, Shared.waiting, weigh_append, Nat.add_assoc]

/-- A future that a call waits for is pursued by one stake. -/
theorem Trace.pursues_eq_one
    (trace : Trace client (State.start workers world kept threads) history s) {g : FutureId}
    (calls : s.shared.futures.calls g = 1) : weigh (Stake.pursues g) s.stakes = 1 := by
  obtain ⟨u, call, found, own⟩ : ∃ u call, s.shared.futures.get? g = some u ∧
      u.callback.bind Callback.call? = some call := by
    unfold Futures.calls at calls
    cases found : s.shared.futures.get? g with
    | none => simp [found] at calls
    | some u =>
      cases own : u.callback.bind Callback.call? with
      | none => simp [found, own] at calls
      | some call => exact ⟨u, call, rfl, own⟩
  obtain ⟨pending, argument⟩ := (trace.recorded.argument g u call found).1 own
  have never : tally (Event.notifies g) history = 0 := by
    rw [tally_notifies, trace.recorded.outcomes, found, Option.bind_some, pending]
    rfl
  have begins := tally_pos_of_mem (n := Event.begins g) argument (one_self g)
  have spares := tally_pos_of_mem (n := Event.spares g) argument (one_self g)
  have underWay := trace.under_way never (.inl begins)
  have unhanded : .handed g ∉ history := fun handed => by
    have := trace.spares_of_handed g handed
    omega
  have untaken : ¬ Taken history g := fun taken =>
    unhanded (trace.hands_of_takes g (taken_iff.1 taken).2)
  have balance := trace.course_balance g untaken
  have opens : tally (Event.opens g) history = 0 := by
    have once := trace.serves_spares_le g
    have le := tally_le_tally (Event.opens_le_serves g) history
    omega
  have requests : tally (Event.requests g) history = 0 := by
    by_contra some
    obtain ⟨e, mem, pos⟩ := tally_pos (Nat.pos_of_ne_zero some)
    rw [Event.of_requests pos] at mem
    exact unhanded (trace.recorded.requested g mem)
  have waits := trace.call_law g
  have attempts := trace.request_law g
  have split (stake : Stake) : stake.pursues g + stake.waits g =
      stake.chain g + stake.work g + stake.attempts g := by
    cases stake with
    | attempt h byClient =>
      cases byClient <;> simp [Stake.pursues, Stake.pursued?, Stake.waits, Stake.chain, Stake.work,
        Stake.attempts, one] <;> split <;> simp [*]
    | _ => simp [Stake.pursues, Stake.pursued?, Stake.waits, Stake.chain, Stake.work,
        Stake.attempts, one] <;> split <;> simp [*]
  have sum := weigh_add (Stake.pursues g) (Stake.waits g) s.stakes
  simp only [split, weigh_add] at sum balance underWay
  omega

theorem weigh_pursues_futures (s : Shared W) (g : FutureId) :
    weigh (Stake.pursues g) (s.futures.flatMap Future.stakes) = 0 := by
  by_contra some
  obtain ⟨stake, mem, pos⟩ := weigh_pos (Nat.pos_of_ne_zero some)
  obtain ⟨u, _, held⟩ := List.mem_flatMap.1 mem
  rcases u.mem_stakes held with rfl | ⟨call, _, rfl⟩ <;> simp [Stake.pursues, Stake.pursued?] at pos

theorem Trace.load_law
    (trace : Trace client (State.start workers world kept threads) history s) :
    weigh (Stake.load s.shared.futures) s.working = s.shared.inFlight := by
  rw [← trace.share_law, weigh_stakes, weigh_load, Shared.share_of_calls]
  congr 1
  refine Finset.sum_congr rfl fun n _ => ?_
  rcases Nat.le_one_iff_eq_zero_or_eq_one.1 (s.shared.futures.calls_le (n + 1)) with none | one
  · rw [none, Nat.zero_mul]
  · have pursued := trace.pursues_eq_one one
    rw [weigh_stakes, weigh_pursues_futures, Nat.add_zero] at pursued
    rw [one, pursued]

/-- Who waits for a future stays the same in a step, if somebody pursues the future who does
not take the step. -/
theorem calls_kept {thread : ThreadId} {choice : Choice}
    (trace : Trace client (State.start workers world kept threads) history s)
    (acted : Acted client s s' thread choice) (taken : s.step client thread choice = some s')
    {g : FutureId} (more : weigh (Stake.pursues g) (Frame.stakesOf acted.top) <
      weigh (Stake.pursues g) s.stakes) :
    s'.shared.futures.calls g = s.shared.futures.calls g := by
  have accounts := step_accounts taken
  have stakes := accounts.stakes (Stake.pursues g)
  rcases accounts.futures.get? g with ⟨birth, none, u, found, _, callback⟩ | ⟨_, same⟩
  · rw [Futures.calls_of_none none]
    by_contra some
    have calls : s'.shared.futures.calls g = 1 := by
      have := s'.shared.futures.calls_le g
      omega
    have once := (trace.step taken).pursues_eq_one calls
    rw [Futures.calls, found, Option.bind_some, callback] at calls
    cases e : s.event client thread with
    | argument h call =>
      rw [e] at birth stakes
      obtain rfl : h = g := one_pos (Nat.lt_of_lt_of_eq Nat.one_pos birth.symm)
      have made : weigh (Stake.pursues h) (Event.argument h call).made = 1 := by
        simp [Stake.pursues, Stake.pursued?]
      have gone : weigh (Stake.pursues h) (Event.argument h call).gone = 0 := rfl
      rw [made, gone] at stakes
      omega
    | _ => rw [e] at calls; cases calls
  · simp only [Futures.calls, same]
    cases found : s.shared.futures.get? g with
    | none => rfl
    | some u =>
      simp only [Option.map_some, Option.bind_some, Event.update_callback]
      cases told : (s.event client thread).outcomeOf g with
      | none => rfl
      | some outcome =>
        by_contra differs
        have calls : s.shared.futures.calls g = 1 := by
          simp only [Futures.calls, found, Option.bind_some]
          cases own : u.callback.bind Callback.call? with
          | none => simp [own] at differs
          | some call => rfl
        have once := trace.pursues_eq_one calls
        obtain ⟨failing, notified⟩ : ∃ failing,
            s.event client thread = .notified g outcome failing := by
          cases e : s.event client thread with
          | notified h given failing =>
            rw [e, Event.outcomeOf] at told
            split at told <;> cases told
            rename_i same
            exact ⟨failing, same ▸ rfl⟩
          | _ => rw [e] at told; cases told
        rw [acted.settle_of_notified notified, once] at more
        simp [Stake.pursues, Stake.pursued?] at more

section Steps

variable {thread : ThreadId} {choice : Choice}
  (trace : Trace client (State.start workers world kept threads) history s)
  (acted : Acted client s s' thread choice) (taken : s.step client thread choice = some s')

include trace acted taken

theorem load_kept {stake : Stake} (more : ∀ g, stake.pursues g = 1 →
    weigh (Stake.pursues g) (Frame.stakesOf acted.top) < weigh (Stake.pursues g) s.stakes) :
    stake.load s'.shared.futures = stake.load s.shared.futures := by
  cases pursued : stake.pursued? with
  | none => simp only [Stake.load, pursued, Option.map_none]
  | some g =>
    have kept := calls_kept trace acted taken (more g (by simp [Stake.pursues, pursued]))
    simp only [Stake.load, pursued, Option.map_some, kept]

theorem load_others {frames : List (Frame W)} (stay : frames ⊆ acted.others) :
    weigh (Stake.load s'.shared.futures) (Frame.stakesOf frames) =
      weigh (Stake.load s.shared.futures) (Frame.stakesOf frames) := by
  refine congrArg List.sum (List.map_congr_left fun stake mem => ?_)
  obtain ⟨frame, inFrames, held⟩ := List.mem_flatMap.1 mem
  refine load_kept trace acted taken fun g own => ?_
  have le := acted.weigh_top_add_le (stay inFrames) (Stake.pursues g)
  have pos := weigh_pos_of_mem held own
  omega

theorem load_waiting :
    weigh (Stake.load s'.shared.futures) s.shared.waiting =
      weigh (Stake.load s.shared.futures) s.shared.waiting := by
  refine congrArg List.sum (List.map_congr_left fun stake mem => ?_)
  refine load_kept trace acted taken fun g own => ?_
  have pos := weigh_pos_of_mem mem own
  have whole := s.weigh_stakes (Stake.pursues g)
  simp only [working, weigh_append, acted.weigh_threads] at whole
  omega

/-- A step that touches neither the run queue nor a lane changes the count of work in flight by
as much as the load of its frames. -/
theorem flight_of_load (items : s'.shared.queue.items = s.shared.queue.items)
    (groups : s'.shared.groups = s.shared.groups) :
    s'.shared.inFlight + weigh (Stake.load s.shared.futures) (Frame.stakesOf acted.top) =
      s.shared.inFlight +
        weigh (Stake.load s'.shared.futures) (Frame.stakesOf acted.progress.frames) := by
  have before := trace.load_law
  have after := (trace.step taken).load_law
  have others := load_others trace acted taken (List.Subset.refl _)
  have waiting := load_waiting trace acted taken
  have same : s'.shared.waiting = s.shared.waiting := by
    simp only [Shared.waiting, items, groups]
  simp only [working, weigh_append, acted.weigh_threads, acted.weigh_threads', same]
    at before after
  omega

end Steps

end State

end Strands
