/-
Bounded bypass: nobody on the run queue waits for more than was ahead of it.

An entry of the run queue gives way to the entries ahead of it and to no others, and each
of these is good for one unit: a free job for itself, a group for one turn, after which the
group goes to the back of the queue.  The turns of groups that workers had taken off the
queue before come on top, one for each worker at most.  So a receiver that is never idle
cannot keep the others waiting.

`Serves` says what one step does to the entries in front and to the groups that workers
have in hand.  `Bypass` adds up what the steps of a window do while an entry waits, and
`Log.bypass` reads the bounds off it.
-/
import Strands.Proofs.Alike
import Strands.Proofs.Closing
import Strands.Proofs.Workers

namespace Strands

variable {W : Type}

/-! ## What is taken off the queue, and what begins -/

namespace Beat

def popped? (beat : Beat W) : Option (Item W) :=
  match beat.s.acting beat.thread with
  | some .poll => beat.s.shared.queue.items.head?
  | _ => none

def pushed? (beat : Beat W) : Option (Item W) :=
  if beat.s.shared.queue.closed then none
  else
    match beat.s.acting beat.thread with
    | some (.push job _) => some (.job job)
    | some (.submit group _) => some (.group group)
    | _ => none

end Beat

/-- The entries that were taken off the run queue, in order. -/
def pops (log : List (Beat W)) : List (Item W) := log.filterMap Beat.popped?

def unitsBegun (history : List Event) : List FutureId := history.filterMap Event.begun?

def turnsBegun (group : GroupId) (history : List Event) : List FutureId :=
  history.filterMap fun
    | .turned _ g f => if g = group then some f else none
    | _ => none

theorem pops_append (a b : List (Beat W)) : pops (a ++ b) = pops a ++ pops b :=
  List.filterMap_append

theorem unitsBegun_append (a b : List Event) :
    unitsBegun (a ++ b) = unitsBegun a ++ unitsBegun b := List.filterMap_append

theorem turnsBegun_append (group : GroupId) (a b : List Event) :
    turnsBegun group (a ++ b) = turnsBegun group a ++ turnsBegun group b :=
  List.filterMap_append

theorem turnsBegun_of_not_begun {e : Event} (none : e.begun? = none) (group : GroupId) :
    turnsBegun group [e] = [] := by
  cases e with
  | turned r g f => cases none
  | _ => rfl

theorem starts_sublist_turnsBegun {r : ObjectId} {group : GroupId} {history : List Event}
    (own : ∀ g f, .turned r g f ∈ history → g = group) :
    (starts r history).Sublist (turnsBegun group history) := by
  induction history with
  | nil => exact List.nil_sublist _
  | cons e rest ih =>
    have ih := ih fun g f mem => own g f (List.mem_cons_of_mem _ mem)
    have split : starts r (e :: rest) = starts r [e] ++ starts r rest :=
      starts_append r [e] rest
    have split' : turnsBegun group (e :: rest) = turnsBegun group [e] ++ turnsBegun group rest :=
      turnsBegun_append group [e] rest
    rw [split, split']
    refine List.Sublist.append ?_ ih
    cases e with
    | turned r' g f =>
      by_cases same : r' = r
      · subst same
        obtain rfl := own g f (by simp)
        simp [starts, turnsBegun]
      · simp [starts, same]
    | _ => exact List.nil_sublist _

/-! ## Groups in hand -/

@[simp] def Frame.visit? : Frame W → Option GroupId
  | turn group => some group
  | _ => none

def visits (frames : List (Frame W)) : List GroupId := frames.filterMap Frame.visit?

@[simp] theorem visits_nil : visits ([] : List (Frame W)) = [] := rfl

@[simp] theorem visits_cons (frame : Frame W) (frames : List (Frame W)) :
    visits (frame :: frames) = frame.visit?.toList ++ visits frames := by
  unfold visits
  rw [List.filterMap_cons]
  cases frame.visit? <;> rfl

@[simp] theorem visits_append (a b : List (Frame W)) : visits (a ++ b) = visits a ++ visits b :=
  List.filterMap_append

theorem mem_visits {frames : List (Frame W)} {group : GroupId} :
    group ∈ visits frames ↔ .turn group ∈ frames := by
  unfold visits
  rw [List.mem_filterMap]
  constructor
  · rintro ⟨frame, mem, own⟩
    cases frame with
    | turn g =>
      obtain rfl : g = group := by simpa using own
      exact mem
    | _ => cases own
  · exact fun mem => ⟨_, mem, rfl⟩

theorem visits_eq_nil {frames : List (Frame W)} (none : ∀ group, .turn group ∉ frames) :
    visits frames = [] :=
  List.eq_nil_iff_forall_not_mem.2 fun group mem => none group (mem_visits.1 mem)

theorem count_visits_le_dues (frames : List (Frame W)) (group : GroupId) :
    (visits frames).count group ≤ (dues frames).count group := by
  induction frames with
  | nil => exact Nat.le_refl _
  | cons frame rest ih =>
    have here : frame.visit?.toList.count group ≤ frame.due?.toList.count group := by
      cases frame <;> simp
    rw [visits_cons, dues_cons, List.count_append, List.count_append]
    omega

namespace State

def visits (s : State W) : List GroupId := s.threads.flatMap fun t => Strands.visits t.stack

section Hands

variable {client : Client W} {workers : Nat} {world : W} {kept : List ObjectId}
  {threads : List (Code W)} {s s' : State W} {history : List Event}

theorem visits_of_acted {thread : ThreadId} {choice : Choice}
    (acted : Acted client s s' thread choice) :
    (Strands.visits acted.top ++ s'.visits).Perm
      (Strands.visits acted.progress.frames ++ s.visits) := by
  have spawned : (acted.progress.spawned.map clientThread).flatMap
      (fun t => Strands.visits t.stack) = [] := by
    simp [clientThread]
  rw [List.perm_iff_count]
  intro group
  simp only [visits, acted.threads, acted.threads', List.flatMap_append, List.flatMap_cons,
    acted.stack, visits_append, List.count_append, spawned, List.count_nil]
  omega

theorem count_visits_le (s : State W) (group : GroupId) :
    s.visits.count group + (Item.groups s.shared.queue.items).count group ≤
      s.dues.count group := by
  have inStacks := count_visits_le_dues (s.threads.flatMap Thread.stack) group
  have visited : s.visits = Strands.visits (s.threads.flatMap Thread.stack) :=
    List.filterMap_flatMap.symm
  have due : s.dues = Strands.dues (s.threads.flatMap Thread.stack) ++
      Item.groups s.shared.queue.items :=
    congrArg (· ++ _) List.filterMap_flatMap.symm
  rw [visited, due, List.count_append]
  omega

/-- Each worker has one group in hand at most, and nobody else has any. -/
theorem Trace.length_visits_le
    (trace : Trace client (State.start workers world kept threads) history s) :
    s.visits.length ≤ workers := by
  have one : ∀ t ∈ s.threads, (Strands.visits t.stack).length ≤ if t.worker then 1 else 0 := by
    intro t mem
    have worker := trace.worker_of_isOnRound t mem
    have innermost := trace.turn_innermost t mem
    cases stack : t.stack with
    | nil => exact Nat.zero_le _
    | cons frame below =>
      rw [stack] at worker innermost
      have lower : Strands.visits below = [] := visits_eq_nil innermost.1
      rw [visits_cons, lower, List.append_nil]
      cases frame with
      | turn group => rw [if_pos (worker (.turn group) (by simp) rfl)]; exact Nat.le_refl 1
      | _ => exact Nat.zero_le _
  have all (ts : List (Thread W))
      (each : ∀ t ∈ ts, (Strands.visits t.stack).length ≤ if t.worker then 1 else 0) :
      (ts.flatMap fun t => Strands.visits t.stack).length ≤ ts.countP Thread.worker := by
    induction ts with
    | nil => exact Nat.le_refl _
    | cons t rest ih =>
      obtain ⟨here, others⟩ := List.forall_mem_cons.1 each
      have ih := ih others
      rw [List.flatMap_cons, List.length_append, List.countP_cons]
      omega
  rw [← trace.count_workers]
  exact all s.threads one

end Hands

/-! ## One step -/

/-- What a step does to the entries of the open run queue and to the groups in hand, and
whether a unit begins. -/
inductive Serves (s s' : State W) (popped : Option (Item W)) (e : Event) : Prop
  /-- Entries are put at the back at most. -/
  | pass (behind : List (Item W)) : popped = none → e.begun? = none →
      s'.shared.queue.items = s.shared.queue.items ++ behind → s'.visits.Perm s.visits →
      Serves s s' popped e
  /-- A free job is taken off the queue and begins. -/
  | start (job : Job W) : popped = some (.job job) → e = .started job.future →
      s.shared.queue.items = .job job :: s'.shared.queue.items → s'.visits.Perm s.visits →
      Serves s s' popped e
  | fetch (group : GroupId) : popped = some (.group group) → e.begun? = none →
      s.shared.queue.items = .group group :: s'.shared.queue.items →
      s'.visits.Perm (group :: s.visits) → Serves s s' popped e
  /-- A group that was in hand begins its turn. -/
  | turn (receiver : ObjectId) (group : GroupId) (f : FutureId) : popped = none →
      e = .turned receiver group f → s'.shared.queue.items = s.shared.queue.items →
      s.visits.Perm (group :: s'.visits) → Serves s s' popped e

section Serving

variable {client : Client W} {workers : Nat} {world : W} {kept : List ObjectId}
  {threads : List (Code W)} {s s' : State W} {history : List Event}

/-- A worker looks at the queue. -/
theorem serves_of_poll {thread : ThreadId} {choice : Choice}
    (acted : Acted client s s' thread choice) (top : acted.top = [.poll]) :
    Serves s s' (Beat.mk s thread).popped? (s.event client thread) := by
  have move := acted.move
  have visited := visits_of_acted acted
  have stands : s.acting thread = some .poll := by rw [acted.acting, top]; rfl
  have popped : (Beat.mk s thread).popped? = s.shared.queue.items.head? := by
    simp [Beat.popped?, stands]
  rw [top] at move visited
  have event := acted.event
  rw [top] at event
  have taken : acted.progress = pollStep client s.shared :=
    (Option.some.inj move.step_of_single).symm
  have shared := acted.shared'
  rw [taken] at shared visited
  simp only [pollStep] at shared visited
  cases items : s.shared.queue.items with
  | nil =>
    rw [items] at popped
    simp only [RunQueue.pop, items] at shared visited
    refine .pass [] popped ?_ ?_ ?_
    · rw [event]
      simp [Move.event, Frame.event, items, Event.begun?]
    · rw [shared]
      simp
    · simpa using visited
  | cons item rest =>
    rw [items] at popped
    simp only [RunQueue.pop, items] at shared visited
    cases item with
    | job job =>
      refine .start job popped ?_ ?_ ?_
      · rw [event]
        simp [Move.event, Frame.event, items]
      · rw [shared, items]
      · simpa [Job.run] using visited
    | group group =>
      refine .fetch group popped ?_ ?_ ?_
      · rw [event]
        simp [Move.event, Frame.event, items, Event.begun?]
      · rw [shared, items]
      · simpa using visited

/-- A group in hand begins its turn: a job waits in it. -/
theorem serves_of_turn {thread : ThreadId} {choice : Choice} {group : GroupId}
    (trace : Trace client (State.start workers world kept threads) history s)
    (acted : Acted client s s' thread choice) (top : acted.top = [.turn group]) :
    Serves s s' (Beat.mk s thread).popped? (s.event client thread) := by
  have move := acted.move
  have visited := visits_of_acted acted
  have stands : s.acting thread = some (.turn group) := by rw [acted.acting, top]; rfl
  have popped : (Beat.mk s thread).popped? = none := by simp [Beat.popped?, stands]
  rw [top] at move visited
  have event := acted.event
  rw [top] at event
  have due : group ∈ s.dues := by
    refine due_of_turn acted.actor_eq ?_
    rw [acted.stack, top]
    simp
  obtain ⟨g, found, waiting⟩ := trace.laden group due
  obtain ⟨job, rest, jobs⟩ := List.exists_cons_of_ne_nil waiting
  have taken : acted.progress = turnStep client s.shared group :=
    (Option.some.inj move.step_of_single).symm
  have shared := acted.shared'
  rw [taken] at shared visited
  simp only [turnStep, found, Group.next, jobs] at shared visited
  refine .turn g.object group job.future popped ?_ ?_ ?_
  · rw [event]
    simp [Move.event, Frame.event, found, jobs]
  · rw [shared]
    rfl
  · simpa [Job.run] using visited.symm

theorem Trace.visits_top
    (trace : Trace client (State.start workers world kept threads) history s) {thread : ThreadId}
    {choice : Choice} (acted : Acted client s s' thread choice)
    (other : ∀ group, acted.top ≠ [.turn group]) : Strands.visits acted.top = [] := by
  refine visits_eq_nil fun group mem => ?_
  obtain ⟨frame, above, top⟩ := acted.move.top_ne_nil
  have innermost := trace.turn_innermost acted.actor acted.actor_mem
  rw [acted.stack, top, List.cons_append] at innermost
  rw [top] at mem
  rcases List.mem_cons.1 mem with rfl | below
  · exact other group (acted.top_of_acting (by rw [acted.acting, top]; rfl) (by simp))
  · exact innermost.1 group (List.mem_append_left _ below)

/-- Units begin where a worker takes an entry off the queue or begins a turn, and nowhere
else. -/
theorem Trace.unbegun_of_appended
    (trace : Trace client (State.start workers world kept threads) history s) {thread : ThreadId}
    {choice : Choice} (taken : s.step client thread choice = some s')
    (acted : Acted client s s' thread choice) (unturned : Strands.visits acted.top = [])
    {behind : List (Item W)} (items : s'.shared.queue.items = s.shared.queue.items ++ behind) :
    (s.event client thread).begun? = none := by
  have lines := step_lines taken
  cases event : s.event client thread with
  | started f =>
    rw [event] at lines
    have lines : Item.futures s.shared.queue.items =
        f :: Item.futures (s.shared.queue.items ++ behind) := items ▸ lines
    have longer : (Item.futures (s.shared.queue.items ++ behind)).length =
        (Item.futures s.shared.queue.items).length + (Item.futures behind).length := by
      unfold Item.futures
      rw [List.filterMap_append, List.length_append]
    have length := congrArg List.length lines
    rw [List.length_cons] at length
    omega
  | turned r group f =>
    obtain ⟨above, top⟩ := trace.top_of_turned acted event
    rw [top] at unturned
    cases unturned
  | _ => rfl

/-- What a step does to the entries in front and to the groups in hand. -/
theorem Trace.serves {thread : ThreadId} {choice : Choice}
    (trace : Trace client (State.start workers world kept threads) history s)
    (taken : s.step client thread choice = some s') (opened : s'.shared.queue.closed = false) :
    Serves s s' (Beat.mk s thread).popped? (s.event client thread) := by
  obtain ⟨acted⟩ := step_cases taken
  by_cases polls : acted.top = [.poll]
  · exact serves_of_poll acted polls
  by_cases turns : ∃ group, acted.top = [.turn group]
  · obtain ⟨group, top⟩ := turns
    exact serves_of_turn trace acted top
  have popped : (Beat.mk s thread).popped? = none := by
    unfold Beat.popped?
    split
    · rename_i stands
      exact absurd (acted.top_of_acting stands (by simp)) polls
    · rfl
  have unturned := trace.visits_top acted (not_exists.1 turns)
  have pass (behind : List (Item W))
      (items : s'.shared.queue.items = s.shared.queue.items ++ behind)
      (frames : Strands.visits acted.progress.frames = []) :
      Serves s s' (Beat.mk s thread).popped? (s.event client thread) :=
    .pass behind popped (trace.unbegun_of_appended taken acted unturned items) items
      (by simpa [unturned, frames] using visits_of_acted acted)
  have visitless (none : Strands.dues acted.progress.frames = []) :
      Strands.visits acted.progress.frames = [] := visits_eq_nil (not_turn_of_dues none)
  have shared := acted.shared'
  cases acted.move.feeds with
  | keep queue none => exact pass [] (by rw [shared, queue, List.append_nil]) (visitless none)
  | push job asker top pushed none =>
    exact pass [.job job] (by rw [shared, RunQueue.items_of_push pushed]) (visitless none)
  | submit group asker top pushed none =>
    exact pass [.group group] (by rw [shared, RunQueue.items_of_push pushed]) (visitless none)
  | start job top | fetch group top => exact absurd top polls
  | close top queue =>
    rw [shared, queue] at opened
    cases opened
  | send group asker g top queue frames =>
    exact pass [] (by rw [shared, queue, List.append_nil]) (by rw [frames]; rfl)

end Serving

/-! ## While an entry waits -/

/-- What is known of a window in which an entry waits that was put behind others: which of
these were taken off the queue, and how many units began.  Each entry taken off the queue
is good for one of them, and so is each group that was in hand at the beginning. -/
structure Bypass (client : Client W) (ahead : List (Item W)) (item : Item W) (first : State W)
    (window : List (Beat W)) (s : State W) (front behind : List (Item W)) : Prop where
  queue : s.shared.queue.items = front ++ item :: behind
  popped : ahead = pops window ++ front
  begun : (unitsBegun (events client window)).length + s.visits.length + front.length =
    first.visits.length + ahead.length
  turns : ∀ group, (turnsBegun group (events client window)).length + s.visits.count group +
    (Item.groups front).count group = first.visits.count group + (Item.groups ahead).count group

section Windows

variable {client : Client W} {workers : Nat} {world : W} {kept : List ObjectId}
  {threads : List (Code W)} {s s' first : State W} {before window : List (Beat W)}
  {ahead front behind : List (Item W)} {item : Item W}

theorem bypass_start (items : first.shared.queue.items = ahead ++ [item]) :
    Bypass client ahead item first [] first ahead [] where
  queue := items
  popped := rfl
  begun := by rw [events_nil]; exact congrArg (· + ahead.length) (Nat.zero_add _)
  turns group := by rw [events_nil]; exact congrArg (· + _) (Nat.zero_add _)

theorem front_of_taken {taken : Item W} {rest : List (Item W)}
    (queue : taken :: rest = front ++ item :: behind) (other : taken.stake ≠ item.stake) :
    ∃ others, front = taken :: others ∧ rest = others ++ item :: behind := by
  cases front with
  | nil =>
    obtain ⟨rfl, _⟩ := List.cons.inj queue
    exact absurd rfl other
  | cons next others =>
    obtain ⟨rfl, eq⟩ := List.cons.inj queue
    exact ⟨others, rfl, eq⟩

/-- One more step, in which the entry is not taken off the queue. -/
theorem Bypass.step {thread : ThreadId}
    (bypass : Bypass client ahead item first window s front behind)
    (serves : Serves s s' (Beat.mk s thread).popped? (s.event client thread))
    (waits : ∀ taken, (Beat.mk s thread).popped? = some taken → taken.stake ≠ item.stake) :
    ∃ front behind, Bypass client ahead item first (window ++ [⟨s, thread⟩]) s' front behind := by
  have units : unitsBegun (events client (window ++ [⟨s, thread⟩])) =
      unitsBegun (events client window) ++ (s.event client thread).begun?.toList := by
    rw [events_append, unitsBegun_append]
    cases eq : (s.event client thread).begun? <;> simp [unitsBegun, Beat.event, eq]
  have turns (group : GroupId) : turnsBegun group (events client (window ++ [⟨s, thread⟩])) =
      turnsBegun group (events client window) ++ turnsBegun group [s.event client thread] := by
    rw [events_append, turnsBegun_append]
    rfl
  have more : pops (window ++ [⟨s, thread⟩]) =
      pops window ++ (Beat.mk s thread).popped?.toList := by
    rw [pops_append]
    cases eq : (Beat.mk s thread).popped? <;> simp [pops, eq]
  have begun := bypass.begun
  cases serves with
  | pass later popped idle items hands =>
    refine ⟨front, behind ++ later, ?_, ?_, ?_, fun group => ?_⟩
    · simp [items, bypass.queue]
    · rw [more, popped, Option.toList_none, List.append_nil, bypass.popped]
    · rw [units, idle, Option.toList_none, List.append_nil, hands.length_eq, begun]
    · rw [turns, turnsBegun_of_not_begun idle, List.append_nil, hands.count_eq, bypass.turns]
  | start job popped event items hands =>
    obtain ⟨front, rfl, rest⟩ :=
      front_of_taken (items.symm.trans bypass.queue) (waits _ popped)
    refine ⟨front, behind, rest, ?_, ?_, fun group => ?_⟩
    · simp [more, popped, bypass.popped]
    · rw [units, event, hands.length_eq, ← begun]
      simp only [Event.begun?, Option.toList_some, List.length_append, List.length_cons,
        List.length_nil]
      omega
    · have same := bypass.turns group
      rw [turns, event, hands.count_eq, ← same]
      exact congrArg (fun l : List FutureId => l.length + _ + _) (List.append_nil _)
  | fetch g popped idle items hands =>
    obtain ⟨front, rfl, rest⟩ :=
      front_of_taken (items.symm.trans bypass.queue) (waits _ popped)
    refine ⟨front, behind, rest, ?_, ?_, fun group => ?_⟩
    · simp [more, popped, bypass.popped]
    · rw [units, idle, hands.length_eq, ← begun]
      simp only [Option.toList_none, List.append_nil, List.length_cons]
      omega
    · have same := bypass.turns group
      have groups : Item.groups (.group g :: front) = g :: Item.groups front := rfl
      rw [groups, List.count_cons] at same
      rw [turns, turnsBegun_of_not_begun idle, hands.count_eq, List.count_cons, ← same,
        List.append_nil]
      omega
  | turn r g f popped event items hands =>
    refine ⟨front, behind, items.trans bypass.queue, ?_, ?_, fun group => ?_⟩
    · rw [more, popped, Option.toList_none, List.append_nil, bypass.popped]
    · have hands := hands.length_eq
      rw [units, event, ← begun]
      simp only [Event.begun?, Option.toList_some, List.length_append, List.length_cons,
        List.length_nil] at hands ⊢
      omega
    · have same := bypass.turns group
      rw [hands.count_eq, List.count_cons] at same
      have own : (turnsBegun group [.turned r g f]).length = if g == group then 1 else 0 := by
        by_cases eq : g = group <;> simp [turnsBegun, eq]
      rw [turns, event, List.length_append, own, ← same]
      omega

/-- The queue stays open until somebody closes it for good. -/
theorem Log.opened_of_opened {later : List (Beat W)} (run : Log client first later s)
    (opened : s.shared.queue.closed = false) : first.shared.queue.closed = false := by
  induction run with
  | start => exact opened
  | @step log s s' thread choice run taken ih =>
    refine ih (Bool.eq_false_iff.2 fun closed => ?_)
    have still := (step_accounts taken).closed
    rw [opened, closed] at still
    cases event : s.event client thread <;> rw [event] at still <;> cases still

theorem Log.bypass_of_window
    (run : Log client (State.start workers world kept threads) before first)
    (items : first.shared.queue.items = ahead ++ [item]) (later : Log client first window s)
    (waits : ∀ beat ∈ window, ∀ taken, beat.popped? = some taken → taken.stake ≠ item.stake)
    (opened : s.shared.queue.closed = false) :
    ∃ front behind, Bypass client ahead item first window s front behind := by
  induction later with
  | start => exact ⟨ahead, [], bypass_start items⟩
  | @step window s s' thread choice later taken ih =>
    have earlier := List.forall_mem_append.1 waits
    have stillOpen := (Log.one taken).opened_of_opened opened
    obtain ⟨front, behind, bypass⟩ := ih earlier.1 stillOpen
    exact bypass.step ((run.append later).trace.serves taken opened)
      (earlier.2 _ (List.mem_singleton.2 rfl))

/-- What a step pushes is last on the queue then. -/
theorem items_of_pushed {push : Beat W} {choice : Choice}
    (taken : push.s.step client push.thread choice = some s')
    (pushed : push.pushed? = some item) :
    s'.shared.queue.items = push.s.shared.queue.items ++ [item] := by
  obtain ⟨s, thread⟩ := push
  obtain ⟨acted⟩ := step_cases taken
  unfold Beat.pushed? at pushed
  split at pushed
  · cases pushed
  rename_i opened
  have pushes (item : Item W) :
      s.shared.queue.push item =
        some { s.shared.queue with items := s.shared.queue.items ++ [item] } :=
    if_neg opened
  rw [acted.shared']
  split at pushed
  · rename_i job asker stands
    have move := acted.move
    rw [acted.top_of_acting stands (by simp)] at move
    rw [← Option.some.inj pushed, ← Option.some.inj move.step_of_single]
    simp [pushStep, pushes]
  · rename_i group asker stands
    have move := acted.move
    rw [acted.top_of_acting stands (by simp)] at move
    rw [← Option.some.inj pushed, ← Option.some.inj move.step_of_single]
    simp [submitStep, pushes]
  · cases pushed

/-- No entry waits on the queue twice. -/
theorem Trace.nodup_queue {history : List Event}
    (trace : Trace client (State.start workers world kept threads) history s) :
    (s.shared.queue.items.map Item.stake).Nodup := by
  refine List.nodup_iff_count_le_one.2 fun stake => ?_
  have part : (s.shared.queue.items.map Item.stake).count stake ≤ s.stakes.count stake := by
    simp only [stakes, Shared.stakes, List.count_append]
    omega
  have counts (w : Stake → Nat) (own : w stake = 1) :
      s.stakes.count stake ≤ weigh w s.stakes := by
    generalize s.stakes = held
    induction held with
    | nil => exact Nat.le_refl _
    | cons first rest ih =>
      rw [List.count_cons, weigh_cons]
      by_cases same : first = stake
      · rw [same, own]
        simp only [BEq.rfl, if_true]
        omega
      · simp only [beq_iff_eq, same, if_false]
        omega
  by_cases queued : 0 < (s.shared.queue.items.map Item.stake).count stake
  · obtain ⟨item, _, rfl⟩ := List.mem_map.1 (List.count_pos_iff.1 queued)
    cases item with
    | job job =>
      have most := counts (Stake.queues job.future) (one_self _)
      have law := trace.job_law job.future
      have hand := trace.hand_law job.future
      have bound := trace.bound_law job.future
      have claims := trace.claims_le job.future
      rw [tally_add] at hand
      omega
    | group g =>
      have most := counts (Stake.tokens g) (one_self g)
      have token := trace.lanes.token g
      have le := Bool.toNat_le (s.shared.isTaken g)
      omega
  · omega

/-- Groups stay those of their receivers. -/
theorem Log.owner {group : GroupId} {r : ObjectId} (later : Log client first window s)
    (own : first.shared.owner group = some r) : s.shared.owner group = some r := by
  induction later with
  | start => exact own
  | step _ taken ih => exact (step_shift taken).1.owner ih

/-- A group that has its turn in the window had somebody bound to see to it before, so it is
the one that the table had for its receiver. -/
theorem Bypass.listed_of_turned
    (bypass : Bypass client ahead item first window s front behind)
    (run : Log client (State.start workers world kept threads) before first)
    (items : first.shared.queue.items = ahead ++ [item]) (later : Log client first window s)
    {r : ObjectId} {group : GroupId} {f : FutureId}
    (turned : .turned r group f ∈ events client window) :
    first.shared.table.get? r = some group := by
  have begun : 0 < (turnsBegun group (events client window)).length :=
    List.length_pos_of_mem (a := f) (List.mem_filterMap.2 ⟨_, turned, if_pos rfl⟩)
  have due : group ∈ first.dues := by
    have turns := bypass.turns group
    have le := first.count_visits_le group
    rw [items, Item.groups, List.filterMap_append, List.count_append] at le
    rw [Item.groups, Item.groups] at turns
    exact List.count_pos_iff.1 (by omega)
  obtain ⟨g, found, waiting⟩ := run.trace.laden group due
  obtain ⟨g, found, listed⟩ := run.trace.lanes.listed_of_busy (.inl ⟨g, found, waiting⟩)
  have still := later.owner (Shared.owner_of_found found)
  obtain ⟨g', found', object⟩ := (run.append later).trace.lanes.owner r group f
    (mem_events_right _ turned)
  rw [Shared.owner_of_found found', object] at still
  rw [Option.some.inj still]
  exact listed

/-- While an entry waits on the open run queue, the entries that were ahead of it are taken
off and no others, in their order, and when its own turn comes all of them have been.  Of
each group and of each receiver one unit begins at most, however many wait on its lane or
join it meanwhile, and in all no more units than there were entries ahead and workers. -/
theorem Log.bypass {push : Beat W}
    (run : Log client (State.start workers world kept threads) (before ++ push :: window) s)
    (pushed : push.pushed? = some item)
    (waits : ∀ beat ∈ window, ∀ taken, beat.popped? = some taken → taken.stake ≠ item.stake)
    (opened : s.shared.queue.closed = false) :
    (∃ front behind, push.s.shared.queue.items = pops window ++ front ∧
      s.shared.queue.items = front ++ item :: behind) ∧
    (∀ thread taken, (Beat.mk s thread).popped? = some taken → taken.stake = item.stake →
      taken = item ∧ pops window = push.s.shared.queue.items) ∧
    (∀ group, (turnsBegun group (events client window)).length ≤ 1) ∧
    (∀ receiver, (starts receiver (events client window)).length ≤ 1) ∧
    (unitsBegun (events client window)).length ≤ push.s.shared.queue.items.length + workers := by
  obtain ⟨earlier, choice, first, taken, later⟩ := run.split
  have run₁ := earlier.step taken
  have items := items_of_pushed taken pushed
  obtain ⟨front, behind, bypass⟩ := run₁.bypass_of_window items later waits opened
  have once (group : GroupId) : (turnsBegun group (events client window)).length ≤ 1 := by
    have turns := bypass.turns group
    have le := first.count_visits_le group
    have most := count_dues_le_one run₁.trace.lanes group
    rw [items, Item.groups, List.filterMap_append, List.count_append] at le
    rw [Item.groups, Item.groups] at turns
    omega
  refine ⟨⟨front, behind, bypass.popped, bypass.queue⟩, fun thread taken popped same => ?_,
    once, fun receiver => ?_, ?_⟩
  · -- The entry waits only once, so it is the first on the queue.
    have inFront : taken ∈ s.shared.queue.items.head? := by
      unfold Beat.popped? at popped
      split at popped
      · exact popped
      · cases popped
    cases front with
    | nil =>
      rw [bypass.queue] at inFront
      refine ⟨(Option.some.inj inFront).symm, ?_⟩
      rw [bypass.popped, List.append_nil]
    | cons next front =>
      rw [bypass.queue] at inFront
      obtain rfl : next = taken := Option.some.inj inFront
      have nodup := run.trace.nodup_queue
      rw [bypass.queue, List.cons_append, List.map_cons, List.nodup_cons] at nodup
      exact absurd (List.mem_map.2 ⟨item, by simp, same.symm⟩) nodup.1
  · have own (g : GroupId) (f : FutureId) (turned : .turned receiver g f ∈ events client window) :
        g = (first.shared.table.get? receiver).getD 0 := by
      rw [bypass.listed_of_turned run₁ items later turned]
      rfl
    exact Nat.le_trans (starts_sublist_turnsBegun own).length_le (once _)
  · have begun := bypass.begun
    have hands := run₁.trace.length_visits_le
    omega

end Windows

/-- A client that puts two units on the lane of one receiver between one on the free lane and
one for another receiver. -/
def busyReceiver : Code Unit :=
  Sample.create fun a => Sample.create fun b => Sample.create fun c => Sample.create fun d =>
    Sample.schedule .free a <| Sample.schedule (.group 1) b <| Sample.schedule (.group 1) c <|
    Sample.schedule (.group 2) d Sample.done

/-- The client has placed all its units, and then the worker has come to the last receiver. -/
def busyReceiverLog : List (Beat Unit) :=
  (State.start 1 () [1, 2] [busyReceiver]).beats (Sample.client Sample.value)
    (List.replicate 44 1 ++ List.replicate 16 0)

/-- The last receiver's turn comes though the first one still has a unit waiting. -/
theorem bypass_busyReceiver :
    unitsBegun (events (Sample.client Sample.value) (busyReceiverLog.drop 40)) = [1, 2] ∧
    (turnsBegun 0 (events (Sample.client Sample.value) (busyReceiverLog.drop 40))).length ≤ 1 ∧
    (unitsBegun (events (Sample.client Sample.value) (busyReceiverLog.drop 40))).length ≤ 3 := by
  have bound : 39 < busyReceiverLog.length := by decide +kernel
  have split : busyReceiverLog =
      busyReceiverLog.take 39 ++ busyReceiverLog[39] :: busyReceiverLog.drop 40 := by
    rw [← List.drop_eq_getElem_cons bound, List.take_append_drop]
  have run : Log _ _ busyReceiverLog _ := log_beats _ _ _
  rw [split] at run
  have pushed : busyReceiverLog[39].pushed? = some (.group 1) := rfl
  have others : ((busyReceiverLog.drop 40).all fun beat =>
      beat.popped?.map Item.stake != some (.token 1)) = true := by decide +kernel
  have waits : ∀ beat ∈ busyReceiverLog.drop 40, ∀ taken, beat.popped? = some taken →
      taken.stake ≠ (Item.group 1 : Item Unit).stake := fun beat mem taken popped same => by
    have other := List.all_eq_true.1 others beat mem
    rw [popped, Option.map_some, same] at other
    cases other
  obtain ⟨_, _, turns, _, units⟩ := run.bypass pushed waits rfl
  exact ⟨by decide +kernel, turns 0, units⟩

end State
end Strands
