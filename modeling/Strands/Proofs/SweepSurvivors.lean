/-
What sweeps spare.

Whatever is swept and whenever, a receiver that is held on to keeps its group, and a group
that anybody has to do with is the one that the table has for its receiver.  So sweeps make
no difference: take any run with sweeps, take out some or all of them and put in others, and
its steps can be taken in the same order, do the same, and are told of in the same way, up to
the numbers of groups.  Only how many groups there are may change, and so only code that
makes something of that number can tell.  This is `Sweeping.harmless`.

The two runs are kept `Alike` step by step (`Alike.step`), and either may be swept alone
(`Alike.swept_left`, `Alike.swept_right`).
-/
import Mathlib.Data.List.Induction
import Mathlib.Data.List.ReduceOption
import Strands.Proofs.Alike

namespace Strands

variable {W : Type}

/-! ## Related lists -/

section Related

variable {α β : Type} {R S : α → β → Prop} {a : List α} {b : List β}

theorem forall₂_getElem? (related : List.Forall₂ R a b) (i : Nat) : Option.Rel R a[i]? b[i]? := by
  induction related generalizing i with
  | nil => exact .none
  | cons here _ ih =>
    cases i with
    | zero => exact .some here
    | succ i => exact ih i

theorem forall₂_modify {f : α → α} {f' : β → β} (others : ∀ x y, R x y → S x y)
    (changed : ∀ x y, R x y → S (f x) (f' y)) (related : List.Forall₂ R a b) (i : Nat) :
    List.Forall₂ S (a.modify i f) (b.modify i f') := by
  induction related generalizing i with
  | nil => cases i <;> exact .nil
  | cons here rest ih =>
    cases i with
    | zero => exact .cons (changed _ _ here) (rest.imp others)
    | succ i => exact .cons (others _ _ here) (ih i)

theorem any_eq_of_mem_iff {α : Type} {a b : List α} (same : ∀ x, x ∈ b ↔ x ∈ a)
    (test : α → Bool) : b.any test = a.any test := by
  rw [Bool.eq_iff_iff, List.any_eq_true, List.any_eq_true]
  simp only [same]

end Related

/-! ## Alike states -/

structure Thread.Alike (R : GroupId → GroupId → Prop) (a b : Thread W) : Prop where
  worker : b.worker = a.worker
  stack : Frame.StackAlike R a.stack b.stack

namespace State

structure Alike (s t : State W) : Prop where
  shared : s.shared.Alike t.shared
  threads : List.Forall₂ (Thread.Alike (s.shared.Peers t.shared)) s.threads t.threads

theorem alike_start (workers : Nat) (world : W) (kept : List ObjectId) (threads : List (Code W)) :
    Alike (start workers world kept threads) (start workers world kept threads) where
  shared := ⟨rfl, .nil, fun _ => rfl⟩
  threads := by
    refine List.forall₂_same.2 fun t mem =>
      ⟨rfl, .frames (Frame.alike_self fun frame inStack => ?_)⟩
    rcases List.mem_append.1 mem with isWorker | ofClient
    · rw [(List.mem_replicate.1 isWorker).2] at inStack
      rw [List.mem_singleton.1 inStack]
      rfl
    · obtain ⟨code, _, rfl⟩ := List.mem_map.1 ofClient
      rw [List.mem_singleton.1 inStack]
      rfl

theorem busy_of_actor {s : State W} {thread : ThreadId} {actor : Thread W}
    (found : s.threads[thread]? = some actor) :
    ∀ frame ∈ actor.stack, ∀ group, frame.group? = some group → s.Busy group :=
  fun frame inStack _ inHand =>
    .inr (.inr ⟨actor, List.mem_of_getElem? found, frame, inStack, inHand⟩)

namespace Alike

section Sights

variable {R : GroupId → GroupId → Prop}

theorem stack_isEmpty {a b : List (Frame W)} (same : Frame.StackAlike R a b) :
    b.isEmpty = a.isEmpty := by
  cases same with
  | number _ _ => rfl
  | frames frames => cases frames <;> rfl

theorem stack_held {a b : List (Frame W)} (same : Frame.StackAlike R a b) :
    b.map Frame.held = a.map Frame.held := by
  have equal {a b : List (Frame W)} (frames : List.Forall₂ (Frame.Alike R) a b) :
      b.map Frame.held = a.map Frame.held := by
    induction frames with
    | nil => rfl
    | cons here _ ih => rw [List.map_cons, List.map_cons, here.held, ih]
  cases same with
  | number _ below =>
    rw [List.map_cons, List.map_cons, List.map_cons, List.map_cons, equal below]
    rfl
  | frames frames => exact equal frames

theorem queuedJobs_eq {s t : Shared W}
    (items : List.Forall₂ (Item.Alike R) s.queue.items t.queue.items) :
    t.queuedJobs = s.queuedJobs := by
  unfold Shared.queuedJobs
  generalize s.queue.items = a at items
  generalize t.queue.items = b at items
  induction items with
  | nil => rfl
  | cons first _ ih =>
    cases first with
    | job job => exact congrArg (job :: ·) ih
    | group peers => exact ih

end Sights

variable {client : Client W} {s t s' : State W} {history history' : List Event}
  {thread : ThreadId} {choice : Choice}

theorem threads_held {R : GroupId → GroupId → Prop} {a b : List (Thread W)}
    (threads : List.Forall₂ (Thread.Alike R) a b) :
    (b.flatMap fun t => t.stack.map Frame.held) = a.flatMap fun t => t.stack.map Frame.held := by
  induction threads with
  | nil => rfl
  | cons here _ ih => rw [List.flatMap_cons, List.flatMap_cons, stack_held here.stack, ih]

theorem mem_holdings_iff (alike : s.Alike t) (lanes : Lanes history s) (lanes' : Lanes history' t)
    (held : Holding) : held ∈ t.holdings ↔ held ∈ s.holdings := by
  have kept : t.shared.kept = s.shared.kept := (congrArg Shared.kept alike.shared.bare).symm
  have registry : t.shared.registry = s.shared.registry :=
    (congrArg Shared.registry alike.shared.bare).symm
  -- Lanes may come in another order, so that the lists of jobs agree but for their order.
  have lanes (job : Job W) : job ∈ t.shared.laneJobs ↔ job ∈ s.shared.laneJobs := by
    simp only [lanes.mem_laneJobs, lanes'.mem_laneJobs, alike.shared.bench]
  unfold holdings Shared.holdings
  rw [threads_held alike.threads, queuedJobs_eq alike.shared.items, kept, registry]
  simp only [List.mem_append, List.mem_cons, List.mem_map, lanes]

theorem mentions (alike : s.Alike t) (lanes : Lanes history s) (lanes' : Lanes history' t) :
    t.mentions = s.mentions := by
  funext future
  unfold State.mentions
  rw [alike.shared.futures, any_eq_of_mem_iff (alike.mem_holdings_iff lanes lanes')]

theorem isDone (alike : s.Alike t) : t.isDone = s.isDone := by
  funext thread
  have related := forall₂_getElem? alike.threads thread
  unfold State.isDone
  cases found : s.threads[thread]? with
  | none =>
    rw [found] at related
    cases found' : t.threads[thread]? with
    | none => rfl
    | some b => rw [found'] at related; cases related
  | some a =>
    rw [found] at related
    cases found' : t.threads[thread]? with
    | none => rw [found'] at related; cases related
    | some b =>
      rw [found'] at related
      cases related with
      | some here => exact stack_isEmpty here.stack

/-- Alike states take alike steps, and what is told of them is the same. -/
theorem step (alike : s.Alike t) (lanes : Lanes history s) (lanes' : Lanes history' t)
    (heedless : ∀ actor, s.threads[thread]? = some actor →
      ∀ frame ∈ actor.stack.head?, frame.Heedless)
    (taken : s.step client thread choice = some s') :
    ∃ t', t.step client thread choice = some t' ∧ s'.Alike t' ∧
      (t.event client thread).unnumbered = (s.event client thread).unnumbered := by
  have related := forall₂_getElem? alike.threads thread
  unfold State.step at taken ⊢
  unfold State.event
  cases found : s.threads[thread]? with
  | none => rw [found] at taken; cases taken
  | some a =>
    rw [found] at related taken
    cases found' : t.threads[thread]? with
    | none => rw [found'] at related; cases related
    | some b =>
      rw [found'] at related
      have same : Thread.Alike (s.shared.Peers t.shared) a b := by
        cases related with
        | some here => exact here
      have busy := busy_of_actor found
      have busy' := busy_of_actor found'
      obtain ⟨p, stepped, rfl⟩ := Option.map_eq_some_iff.1 taken
      obtain ⟨q, stepped', progress⟩ := same.stack.step alike.shared lanes lanes' busy busy'
        t.isAlive (heedless a found) stepped
      have sight : t.sight thread b.worker =
          { s.sight thread a.worker with isAlive := t.isAlive } := by
        simp only [State.sight, same.worker, alike.isDone, alike.mentions lanes lanes']
      have peers (g g' : GroupId) : s.shared.Peers t.shared g g' →
          p.shared.Peers q.shared g g' := by
        rintro ⟨r, own, own'⟩
        exact ⟨r, stackStep_owner stepped own, stackStep_owner stepped' own'⟩
      refine ⟨t.advance thread q, ?_, ⟨progress.shared, ?_⟩, ?_⟩
      · dsimp only
        rw [sight, stepped']
        rfl
      · refine List.rel_append (forall₂_modify
          (fun x y here => ⟨here.worker, here.stack.mono peers⟩)
          (fun x y here => ⟨here.worker, progress.frames⟩) alike.threads thread) ?_
        rw [progress.spawned]
        refine List.forall₂_same.2 fun started mem => ⟨rfl, .frames (Frame.alike_self ?_)⟩
        obtain ⟨code, _, rfl⟩ := List.mem_map.1 mem
        exact List.forall_mem_singleton.2 rfl
      · dsimp only
        rw [same.worker]
        exact same.stack.event alike.shared lanes lanes' busy busy' a.worker

theorem swept_left (alike : s.Alike t) (lanes : Lanes history s) : s.swept.Alike t :=
  ⟨alike.shared.sweep_left lanes s.isAlive, alike.threads⟩

theorem swept_right (alike : s.Alike t) (lanes' : Lanes history' t) : s.Alike t.swept :=
  ⟨alike.shared.sweep_right lanes' t.isAlive, alike.threads⟩

end Alike

/-! ## Runs that differ in their sweeps -/

end State

/-- What is seen of a step: who took it, what is told of it, and all that was shared before it
except groups, the table and the entries of the run queue. -/
structure Scene (W : Type) where
  thread : ThreadId
  event : Event
  shared : Shared W

/-- What is seen of a pulse.  A sweep is not seen. -/
def Pulse.scene? (client : Client W) (pulse : Pulse W) : Option (Scene W) :=
  pulse.turn.map fun act =>
    ⟨act.1, (pulse.s.event client act.1).unnumbered, pulse.s.shared.bare⟩

/-- At this pulse no code makes anything of a number of groups. -/
def Pulse.Heedless (pulse : Pulse W) : Prop :=
  ∀ act ∈ pulse.turn, ∀ actor, pulse.s.threads[act.1]? = some actor →
    ∀ frame ∈ actor.stack.head?, frame.Heedless

namespace State
namespace Sweeping

variable {client : Client W} {workers : Nat} {world : W} {kept : List ObjectId}
  {threads : List (Code W)} {s s' : State W} {log : List (Pulse W)} {turns : List Turn}

def Matched (client : Client W) (start : State W) (log : List (Pulse W)) (s : State W)
    (turns : List Turn) : Prop :=
  ∃ log' t, Sweeping client start log' t ∧ log'.map Pulse.turn = turns ∧
    log'.filterMap (Pulse.scene? client) = log.filterMap (Pulse.scene? client) ∧ s.Alike t

/-- The other run may be swept. -/
theorem Matched.sweep
    (matched : Matched client (State.start workers world kept threads) log s turns) :
    Matched client (State.start workers world kept threads) log s (turns ++ [none]) := by
  obtain ⟨log', t, run, rfl, seen, alike⟩ := matched
  refine ⟨log' ++ [⟨t, none⟩], t.swept, run.next rfl, by simp, ?_, alike.swept_right run.lanes⟩
  rw [List.filterMap_append, seen]
  exact List.append_nil _

/-- The first run may be swept. -/
theorem Matched.swept
    (matched : Matched client (State.start workers world kept threads) log s turns)
    (run : Sweeping client (State.start workers world kept threads) log s) :
    Matched client (State.start workers world kept threads) (log ++ [⟨s, none⟩]) s.swept turns := by
  obtain ⟨log', t, run', same, seen, alike⟩ := matched
  refine ⟨log', t, run', same, ?_, alike.swept_left run.lanes⟩
  rw [List.filterMap_append, seen]
  exact (List.append_nil _).symm

/-- Both runs may take a step. -/
theorem Matched.step
    (matched : Matched client (State.start workers world kept threads) log s turns)
    (run : Sweeping client (State.start workers world kept threads) log s)
    {act : ThreadId × Choice} (heedless : Pulse.Heedless ⟨s, some act⟩)
    (taken : s.take client (some act) = some s') :
    Matched client (State.start workers world kept threads) (log ++ [⟨s, some act⟩]) s'
      (turns ++ [some act]) := by
  obtain ⟨log', t, run', rfl, seen, alike⟩ := matched
  obtain ⟨t', taken', later, told⟩ :=
    alike.step run.lanes run'.lanes (heedless act rfl) taken
  have turned : t.take client (some act) = some t' := taken'
  refine ⟨log' ++ [⟨t, some act⟩], t', run'.next turned, by simp, ?_, later⟩
  rw [List.filterMap_append, List.filterMap_append, seen]
  congr 1
  simp only [List.filterMap_cons, List.filterMap_nil, Pulse.scene?, Option.map_some, told,
    alike.shared.bare]

/-- A run can be taken with any other sweeps. -/
theorem matched (run : Sweeping client (State.start workers world kept threads) log s)
    (heedless : ∀ pulse ∈ log, pulse.Heedless) :
    ∀ turns : List Turn, turns.reduceOption = (log.map Pulse.turn).reduceOption →
      Matched client (State.start workers world kept threads) log s turns := by
  induction run with
  | start =>
    intro turns same
    induction turns using List.reverseRecOn with
    | nil => exact ⟨[], _, .start, rfl, rfl, alike_start workers world kept threads⟩
    | append_singleton turns last ih =>
      rw [List.reduceOption_append] at same
      cases last with
      | none => exact (ih (by simpa using same)).sweep
      | some act => simp at same
  | @next log s s' turn run taken ih =>
    rw [List.forall_mem_append] at heedless
    intro turns same
    rw [List.map_append, List.reduceOption_append] at same
    cases turn with
    | none =>
      cases taken
      exact (ih heedless.1 turns (by simpa using same)).swept run
    | some act =>
      -- The other run takes the step at its last turn that is no sweep.
      induction turns using List.reverseRecOn with
      | nil => simp [List.reduceOption] at same
      | append_singleton turns last again =>
        rw [List.reduceOption_append] at same
        cases last with
        | none => exact (again (by simpa using same)).sweep
        | some act' =>
          obtain ⟨before, acts⟩ := List.append_inj' same rfl
          obtain rfl : act' = act := by simpa [List.reduceOption] using acts
          exact (ih heedless.1 turns before).step run (heedless.2 _ List.mem_cons_self) taken

/-- Sweeps take nothing from anybody.  A receiver has one and the same group for as long as it
is held on to.  A group in which a job waits, which is on the run queue, or which a thread has
in hand, between finding it and putting a job on its lane or from the start of a turn to its
end, is the one that the table has for its receiver.  So the steps of a run can be taken with
other sweeps between them, or none, and then the same is seen of every step, the outcomes, the
order of execution and the work in flight included, and what is shared in the end is the same
but for the number of groups; provided that no code makes anything of that number. -/
theorem harmless (run : Sweeping client (State.start workers world kept threads) log s) :
    (∀ before pulse after r group, log = before ++ pulse :: after →
      pulse.s.shared.table.get? r = some group →
      (∀ later ∈ pulse :: after, later.s.isAlive r = true) →
      s.shared.table.get? r = some group) ∧
    (∀ target ∈ s.targets, s.shared.table.get? target.1 = some target.2) ∧
    (∀ group, s.Busy group → ∃ g, s.shared.groups[group]? = some g ∧
      s.shared.table.get? g.object = some group) ∧
    ((∀ pulse ∈ log, pulse.Heedless) →
      ∀ turns : List Turn, turns.reduceOption = (log.map Pulse.turn).reduceOption →
        ∃ log' t, Sweeping client (State.start workers world kept threads) log' t ∧
          log'.map Pulse.turn = turns ∧
          log'.filterMap (Pulse.scene? client) = log.filterMap (Pulse.scene? client) ∧
          t.shared.bare = s.shared.bare ∧ (∀ r, t.shared.lane r = s.shared.lane r) ∧
          t.shared.gauges = { s.shared.gauges with groups := t.shared.table.size }) := by
  refine ⟨fun before pulse after r group split listed alive =>
    run.get?_of_isAlive split listed alive, run.lanes.target,
    fun group busy => run.lanes.listed_of_busy busy, fun heedless turns same => ?_⟩
  obtain ⟨log', t, run', turned, seen, alike⟩ := run.matched heedless turns same
  refine ⟨log', t, run', turned, seen, alike.shared.bare.symm, fun r => ?_, alike.shared.gauges⟩
  rw [Shared.lane_eq_bench, Shared.lane_eq_bench, alike.shared.bench]

/-- A run is given by its turns. -/
theorem unique {t : State W} {log' : List (Pulse W)} (run : Sweeping client s log s')
    (run' : Sweeping client s log' t) (same : log'.map Pulse.turn = log.map Pulse.turn) :
    log' = log ∧ t = s' := by
  induction run generalizing log' t with
  | start =>
    cases run' with
    | start => exact ⟨rfl, rfl⟩
    | next _ _ => simp at same
  | @next log u u' turn run taken ih =>
    cases run' with
    | start => simp at same
    | @next log' v _ turn' run' taken' =>
      rw [List.map_append, List.map_append] at same
      obtain ⟨before, last⟩ := List.append_inj' same rfl
      obtain rfl : turn' = turn := by simpa using last
      obtain ⟨rfl, rfl⟩ := ih run' before
      rw [taken] at taken'
      exact ⟨rfl, (Option.some.inj taken').symm⟩

end Sweeping

/-! ## A run with sweeps at work -/

/-- The pulses of turns that are taken in an order, passing over those that cannot be, and the
state they lead to. -/
def pulses (client : Client W) : State W → List Turn → List (Pulse W) × State W
  | s, [] => ([], s)
  | s, turn :: turns =>
    match s.take client turn with
    | some s' =>
      let later := s'.pulses client turns
      (⟨s, turn⟩ :: later.1, later.2)
    | none => s.pulses client turns

theorem Sweeping.pulses {client : Client W} {start s : State W} {log : List (Pulse W)}
    (run : Sweeping client start log s) (turns : List Turn) :
    Sweeping client start (log ++ (s.pulses client turns).1) (s.pulses client turns).2 := by
  induction turns generalizing log s with
  | nil => simpa [State.pulses] using run
  | cons turn turns ih =>
    unfold State.pulses
    split
    · rename_i s' taken
      have later := ih (run.next taken)
      rwa [List.append_assoc, List.singleton_append] at later
    · exact ih run

theorem sweeping_pulses (client : Client W) (start : State W) (turns : List Turn) :
    Sweeping client start (start.pulses client turns).1 (start.pulses client turns).2 :=
  Sweeping.start.pulses turns

end State

def Pulse.isBlind (pulse : Pulse W) : Bool :=
  match pulse.turn with
  | none => true
  | some act =>
    match (pulse.s.threads[act.1]?).map Thread.stack with
    | some (.running _ code :: _) => code.isBlind
    | _ => true

theorem Code.heedless_of_isBlind {code : Code W} (blind : code.isBlind = true) :
    code.Heedless := by
  cases code with
  | ask request next => cases request <;> trivial
  | await ready next => cases blind
  | _ => trivial

theorem Pulse.heedless_of_isBlind {pulse : Pulse W} (blind : pulse.isBlind = true) :
    pulse.Heedless := by
  intro act acts actor found frame first
  cases frame with
  | running role code =>
    refine Code.heedless_of_isBlind ?_
    obtain ⟨below, stack⟩ := List.head?_eq_some_iff.1 first
    simpa [isBlind, Option.mem_def.1 acts, found, stack] using blind
  | _ => trivial

namespace State

/-- A client puts a unit on the lane of each of its two objects and lets go of the second. -/
def letsGo : Code Unit :=
  Sample.create fun f => Sample.schedule (.group 1) f <|
    Sample.create fun g => Sample.schedule (.group 2) g <|
      .ask (.drop 2) fun _ => Sample.done

/-- The steps of threads, each followed by some sweeps. -/
def turnsOf (sweeps : Nat) (threads : List ThreadId) : List Turn :=
  threads.flatMap fun thread => some (thread, ({} : Choice)) :: List.replicate sweeps none

/-- The client goes as far as it can, and then perhaps the worker does, with some sweeps after
every step. -/
def letsGoRun (sweeps workerSteps : Nat) : List (Pulse Unit) × State Unit :=
  (State.start 1 () [1, 2] [letsGo]).pulses (Sample.client Sample.value)
    (turnsOf sweeps (List.replicate 40 1 ++ List.replicate workerSteps 0))

theorem sweeping_letsGo (sweeps workerSteps : Nat) :
    Sweeping (Sample.client Sample.value) (State.start 1 () [1, 2] [letsGo])
      (letsGoRun sweeps workerSteps).1 (letsGoRun sweeps workerSteps).2 :=
  sweeping_pulses _ _ _

/-- The group of an object that was let go of stays while a unit waits there.  Swept or not,
the run does the same; in the end that group is gone, and the group of the object that is held
on to is not. -/
theorem harmless_letsGo :
    ((letsGoRun 1 0).2.isAlive 2 = false ∧ (letsGoRun 1 0).2.Busy 1 ∧
      (letsGoRun 1 0).2.shared.table.get? 2 = some 1) ∧
    ((letsGoRun 1 40).1.filterMap (Pulse.scene? (Sample.client Sample.value)) =
        (letsGoRun 0 40).1.filterMap (Pulse.scene? (Sample.client Sample.value)) ∧
      (letsGoRun 1 40).2.shared.bare = (letsGoRun 0 40).2.shared.bare) ∧
    (letsGoRun 0 40).2.shared.gauges.groups = 2 ∧ (letsGoRun 1 40).2.shared.gauges.groups = 1 ∧
    (letsGoRun 1 40).2.shared.table.get? 1 = some 0 := by
  have waits : ((letsGoRun 1 0).2.shared.groups[1]?).any
      (fun g => g.object == 2 && !g.jobs.isEmpty) = true := by decide +kernel
  obtain ⟨g, found, object, waiting⟩ : ∃ g, (letsGoRun 1 0).2.shared.groups[1]? = some g ∧
      g.object = 2 ∧ g.jobs ≠ [] := by simpa [Option.any_eq_true] using waits
  have busy : (letsGoRun 1 0).2.Busy 1 := .inl ⟨g, found, waiting⟩
  refine ⟨⟨by decide +kernel, busy, ?_⟩, ?_, by decide +kernel, by decide +kernel, ?_⟩
  · obtain ⟨_, _, listed, _⟩ := (sweeping_letsGo 1 0).harmless
    obtain ⟨g', found', own⟩ := listed 1 busy
    rw [found] at found'
    cases found'
    rwa [object] at own
  · obtain ⟨_, _, _, resweep⟩ := (sweeping_letsGo 0 40).harmless
    have blind : ∀ pulse ∈ (letsGoRun 0 40).1, pulse.isBlind = true := by decide +kernel
    obtain ⟨log', t, run, turns, seen, bare, _⟩ :=
      resweep (fun pulse mem => Pulse.heedless_of_isBlind (blind pulse mem))
        ((letsGoRun 1 40).1.map Pulse.turn) (by decide +kernel)
    obtain ⟨rfl, rfl⟩ := (sweeping_letsGo 1 40).unique run turns
    exact ⟨seen, bare⟩
  · -- From its thirtieth pulse on the run has a group for the first object.
    obtain ⟨keeps, _, _, _⟩ := (sweeping_letsGo 1 40).harmless
    have alive : ∀ pulse ∈ (letsGoRun 1 40).1.drop 30, pulse.s.isAlive 1 = true := by
      decide +kernel
    have listed : ∀ pulse ∈ ((letsGoRun 1 40).1.drop 30).head?,
        pulse.s.shared.table.get? 1 = some 0 := by decide +kernel
    cases later : (letsGoRun 1 40).1.drop 30 with
    | nil => exact absurd later (by decide +kernel)
    | cons pulse after =>
      have split : (letsGoRun 1 40).1 = (letsGoRun 1 40).1.take 30 ++ pulse :: after := by
        rw [← later, List.take_append_drop]
      rw [later] at alive listed
      exact keeps _ pulse after 1 0 split (listed pulse rfl) alive

end State
end Strands
