/-
Feeding the run queue.

`Feeds` lists what a step can do to the run queue and to the groups that are due, a group
being due from the moment somebody is about to queue it until its turn begins.  Two things
follow.  A closed queue is empty, and nobody takes anything from it any more
(`Trace.items_of_closed`).  And a group that is due has a job waiting (`Trace.laden`): it
becomes due when a job is put on its lane or left there, and whoever takes jobs off the
lane holds the token, so that the group is not due.
-/
import Strands.Proofs.Calm
import Strands.Proofs.Lanes

namespace Strands

variable {W : Type}

namespace RunQueue

variable {q q' : RunQueue W} {item : Item W}

theorem closed_of_push (h : q.push item = some q') : q'.closed = q.closed := by
  unfold push at h
  split at h <;> cases h
  rfl

theorem closed_of_pop (h : q.pop = some (item, q')) : q'.closed = q.closed := by
  unfold pop at h
  split at h <;> cases h
  rfl

end RunQueue

/-! ## Groups that are due -/

@[simp] def Frame.due? : Frame W → Option GroupId
  | submit group _ | turn group => some group
  | _ => none

def dues (frames : List (Frame W)) : List GroupId := frames.filterMap Frame.due?

def Item.groups (items : List (Item W)) : List GroupId :=
  items.filterMap fun
    | .job _ => none
    | .group queued => some queued

@[simp] theorem dues_nil : dues ([] : List (Frame W)) = [] := rfl

@[simp] theorem dues_cons (frame : Frame W) (frames : List (Frame W)) :
    dues (frame :: frames) = frame.due?.toList ++ dues frames := by
  unfold dues
  rw [List.filterMap_cons]
  cases frame.due? <;> rfl

@[simp] theorem dues_append (a b : List (Frame W)) : dues (a ++ b) = dues a ++ dues b :=
  List.filterMap_append

theorem dues_of_calm {frames : List (Frame W)} (calm : Calm frames) : dues frames = [] := by
  induction frames with
  | nil => rfl
  | cons frame rest ih =>
    obtain ⟨here, rest⟩ := calm_cons.1 calm
    rw [dues_cons, ih rest]
    cases frame <;> first | rfl | cases here

theorem not_turn_of_dues {frames : List (Frame W)} (none : dues frames = []) (group : GroupId) :
    .turn group ∉ frames := fun mem => by
  have due : group ∈ dues frames := List.mem_filterMap.2 ⟨_, mem, rfl⟩
  rw [none] at due
  cases due

/-- None of the frames below a frame is about to begin a turn. -/
def NoTurnBelow (below : List (Frame W)) (_ : Frame W) : Prop := ∀ group, .turn group ∉ below

theorem stacked_of_dues {frames below : List (Frame W)} (none : dues frames = [])
    (lower : ∀ group, .turn group ∉ below) (rest : Stacked NoTurnBelow below) :
    Stacked NoTurnBelow (frames ++ below) := by
  induction frames with
  | nil => exact rest
  | cons frame others ih =>
    rw [dues_cons] at none
    have none := (List.append_eq_nil_iff.1 none).2
    refine ⟨fun group mem => ?_, ih none⟩
    rcases List.mem_append.1 mem with here | below
    · exact not_turn_of_dues none group here
    · exact lower group below

@[simp] theorem Asker.dues_answer (asker : Asker) (result : Except ScheduleError Unit) :
    dues (asker.answer result : List (Frame W)) = [] := dues_of_calm (by simp)

@[simp] theorem Job.dues_refuse (job : Job W) : dues job.refuse = [] := rfl

@[simp] theorem Job.dues_refuse_all (jobs : List (Job W)) :
    dues (jobs.flatMap Job.refuse) = [] := by
  induction jobs with
  | nil => rfl
  | cons job rest ih => rw [List.flatMap_cons, dues_append, ih, dues_refuse]; rfl

@[simp] theorem Item.dues_refuse_all (items : List (Item W)) :
    dues (items.flatMap Item.refuse) = [] := by
  induction items with
  | nil => rfl
  | cons item rest ih =>
    rw [List.flatMap_cons, dues_append, ih]
    cases item <;> rfl

@[simp] theorem Next.dues_resume (next : Next W) (direct : Bool)
    (result : Except DomainError (List Value)) : dues (next.resume direct result) = [] := by
  cases next <;> cases result <;> rfl

@[simp] theorem Next.dues_abandon (next : Next W) (panic : Panic) :
    dues (next.abandon panic) = [] := by
  cases next <;> rfl

@[simp] theorem Callback.dues_notify (outcome : Outcome) (callback : Callback W) :
    dues (callback.notify outcome) = [] := by
  cases callback with
  | argument r => cases outcome <;> simp [notify]
  | _ => rfl

/-! ## What a step does to the queue -/

inductive Feeds (s : Shared W) (top : List (Frame W)) (p : Progress W) : Prop
  | keep : p.shared.queue = s.queue → dues p.frames = [] → Feeds s top p
  | push (job : Job W) (asker : Asker) : top = [.push job asker] →
      s.queue.push (.job job) = some p.shared.queue → dues p.frames = [] → Feeds s top p
  | submit (group : GroupId) (asker : Asker) : top = [.submit group asker] →
      s.queue.push (.group group) = some p.shared.queue → dues p.frames = [] → Feeds s top p
  | start (job : Job W) : top = [.poll] → s.queue.pop = some (.job job, p.shared.queue) →
      dues p.frames = [] → Feeds s top p
  | fetch (group : GroupId) : top = [.poll] → s.queue.pop = some (.group group, p.shared.queue) →
      p.frames = [.turn group, .poll] → Feeds s top p
  | close : top = [.close] → p.shared.queue = s.queue.close → dues p.frames = [] → Feeds s top p
  /-- A group becomes due, a job waiting in it. -/
  | send (group : GroupId) (asker : Asker) (g : Group W) : dues top = [] →
      p.shared.queue = s.queue → p.frames = [.submit group asker] →
      p.shared.groups[group]? = some g → g.jobs ≠ [] → Feeds s top p

section Feeding

variable {client : Client W} {s : Shared W}

theorem Site.answered_feeds (object : ObjectId) (type : ObjectType W) (site : Site W)
    (top : List (Frame W)) : Feeds s top (site.answered s object type) := by
  refine .keep (by cases site <;> rfl) ?_
  cases site with
  | omitted lookup =>
    simp only [answered]
    split <;> simp
  | expressions lookup pending => simpa [answered] using dues_of_calm lookup.next.calm_takenUp
  | listener stopping =>
    simp only [answered]
    split <;> rfl
  | _ => rfl

theorem Role.ended_feeds (role : Role W) (result : Except Panic Outcome) (top : List (Frame W)) :
    Feeds s top (role.ended client s result) := by
  cases role with
  | query object site =>
    cases result with
    | ok outcome => exact site.answered_feeds object _ top
    | error panic =>
      refine .keep rfl ?_
      cases site <;> simp [ended, Site.panicked]
  | continuation | call receiver args => cases result <;> exact .keep rfl rfl
  | _ => exact .keep rfl rfl

theorem pushStep_feeds (job : Job W) (asker : Asker) :
    Feeds s [.push job asker] (pushStep s job asker) := by
  cases pushed : s.queue.push (.job job) with
  | none =>
    simp only [pushStep, pushed]
    exact .keep rfl (by simp)
  | some queue =>
    simp only [pushStep, pushed]
    exact .push job asker rfl pushed (by simp)

theorem submitStep_feeds (group : GroupId) (asker : Asker) :
    Feeds s [.submit group asker] (submitStep s group asker) := by
  cases pushed : s.queue.push (.group group) with
  | none =>
    simp only [submitStep, pushed]
    exact .keep rfl (by simp)
  | some queue =>
    simp only [submitStep, pushed]
    exact .submit group asker rfl pushed (by simp)

theorem appendStep_feeds (receiver : ObjectId) (group : GroupId) (job : Job W) (asker : Asker) :
    Feeds s [.append receiver group job asker] (appendStep s group job asker) := by
  cases found : s.groups[group]? with
  | none =>
    simp only [appendStep, found]
    exact .keep rfl (by simp)
  | some g =>
    simp only [appendStep, found]
    cases taken : g.taken with
    | true => exact .keep rfl (by simp)
    | false =>
      refine .send group asker (g.append job) rfl rfl rfl ?_ (by simp [Group.append])
      simp [Shared.modifyGroup, found]

theorem endTurnStep_feeds (group : GroupId) :
    Feeds s [.endTurn group] (endTurnStep s group) := by
  cases found : s.groups[group]? with
  | none =>
    simp only [endTurnStep, found]
    exact .keep rfl rfl
  | some g =>
    simp only [endTurnStep, found]
    cases waiting : g.jobs.isEmpty with
    | true => exact .keep rfl rfl
    | false =>
      refine .send group .nobody g.endTurn rfl rfl rfl ?_ ?_
      · simp [Shared.modifyGroup, found]
      · show g.jobs ≠ []
        simpa using waiting

theorem turnStep_feeds (group : GroupId) : Feeds s [.turn group] (turnStep client s group) := by
  cases found : s.groups[group]? with
  | none =>
    simp only [turnStep, found]
    exact .keep rfl rfl
  | some g =>
    cases jobs : g.jobs with
    | nil =>
      simp only [turnStep, Group.next, found, jobs]
      exact .keep rfl rfl
    | cons job rest =>
      simp only [turnStep, Group.next, found, jobs]
      exact .keep rfl rfl

theorem pollStep_feeds : Feeds s [.poll] (pollStep client s) := by
  cases popped : s.queue.pop with
  | none =>
    simp only [pollStep, popped]
    exact .keep rfl rfl
  | some found =>
    obtain ⟨item, queue⟩ := found
    cases item with
    | job job =>
      simp only [pollStep, popped]
      exact .start job rfl popped rfl
    | group group =>
      simp only [pollStep, popped]
      exact .fetch group rfl popped rfl

theorem Frame.step_feeds {sight : Sight} {choice : Choice} {frame : Frame W} {p : Progress W}
    (taken : frame.step client sight choice s = some p) : Feeds s [frame] p := by
  by_cases quiet : frame.stirs = false
  · obtain ⟨queue, calm⟩ := step_of_not_stirs quiet taken
    exact .keep queue (dues_of_calm calm)
  cases frame with
  | running role code =>
    cases code with
    | finish outcome | panic payload => cases taken; exact role.ended_feeds _ _
    | _ => exact absurd rfl quiet
  | push job asker => cases taken; exact pushStep_feeds job asker
  | checkOpen receiver job asker =>
    cases taken
    refine .keep rfl ?_
    cases closed : s.queue.closed <;> simp [checkOpenStep, closed]
  | append receiver group job asker => cases taken; exact appendStep_feeds receiver group job asker
  | submit group asker => cases taken; exact submitStep_feeds group asker
  | drain group =>
    cases taken
    simp only [drainStep]
    split <;> exact .keep rfl (by simp)
  | settle f outcome =>
    cases taken
    simp only [settleStep]
    split
    · rename_i callback _ _ _ _
      refine .keep rfl ?_
      cases callback <;> simp
    · exact .keep rfl rfl
  | openCall call metadata fault =>
    cases taken
    refine .keep rfl ?_
    cases fault <;> cases mode : call.mode <;> simp [openCallStep, mode]
  | poll => cases taken; exact pollStep_feeds
  | turn group => cases taken; exact turnStep_feeds group
  | endTurn group => cases taken; exact endTurnStep_feeds group
  | close => cases taken; exact .close rfl rfl (by simp [closeStep])
  | _ => exact absurd rfl quiet

theorem Move.top_ne_nil {sight : Sight} {choice : Choice} {top : List (Frame W)} {p : Progress W}
    (move : Move client sight choice s top p) : ∃ frame above, top = frame :: above := by
  cases move <;> exact ⟨_, _, rfl⟩

theorem Move.feeds {sight : Sight} {choice : Choice} {top : List (Frame W)} {p : Progress W}
    (move : Move client sight choice s top p) : Feeds s top p := by
  cases move with
  | receive reply role next => exact .keep (s.queue_receive reply) rfl
  | pass reply held => exact .keep rfl rfl
  | act taken => exact Frame.step_feeds taken

end Feeding

/-! ## Lanes that only grow -/

/-- A lane only grows at its back, unless the group is drained or begins a turn. -/
theorem Event.Shifts.grows {isAlive : ObjectId → Bool} {s s' : Shared W} {e : Event}
    (shifts : e.Shifts isAlive s s') {group : GroupId} {g : Group W}
    (found : s.groups[group]? = some g) (drained : ∀ futures, e ≠ .drained group futures)
    (turned : ∀ r f, e ≠ .turned r group f) :
    ∃ g', s'.groups[group]? = some g' ∧ g.jobs <+: g'.jobs := by
  have modified : ∀ {other : GroupId} {change : Group W → Group W},
      s'.groups = s.groups.modify other change → (other = group → g.jobs <+: (change g).jobs) →
      ∃ g', s'.groups[group]? = some g' ∧ g.jobs <+: g'.jobs := by
    intro other change groups longer
    by_cases same : other = group
    · exact ⟨change g, by rw [groups, same]; simp [found], longer same⟩
    · refine ⟨g, ?_, List.prefix_rfl⟩
      rw [groups, List.getElem?_modify_ne change s.groups same, found]
  cases e with
  | located receiver =>
    refine ⟨g, ?_, List.prefix_rfl⟩
    rw [shifts.1, Shared.locate]
    obtain ⟨bound, _⟩ := List.getElem?_eq_some_iff.1 found
    split
    · exact found
    · rw [List.getElem?_append_left bound, found]
  | appended r other f took =>
    obtain ⟨_, g', job, _, _, _, groups⟩ := shifts
    exact modified groups fun _ => List.prefix_append _ _
  | drained other futures =>
    refine modified shifts.2.1 fun same => ?_
    exact absurd rfl (same ▸ drained futures)
  | turned r other f =>
    obtain ⟨_, g', job, rest, _, _, _, _, groups⟩ := shifts
    exact modified groups fun same => absurd rfl (same ▸ turned r f)
  | turnEnded other => exact modified shifts.2.2 fun _ => List.prefix_rfl
  | _ => exact ⟨g, by rw [shifts.1]; exact found, List.prefix_rfl⟩

namespace State

def dues (s : State W) : List GroupId :=
  s.threads.flatMap (fun t => Strands.dues t.stack) ++ Item.groups s.shared.queue.items

theorem count_dues_of_acted {client : Client W} {s s' : State W} {thread : ThreadId}
    {choice : Choice} (acted : Acted client s s' thread choice) (group : GroupId) :
    s'.dues.count group + (Strands.dues acted.top).count group +
        (Item.groups s.shared.queue.items).count group =
      s.dues.count group + (Strands.dues acted.progress.frames).count group +
        (Item.groups s'.shared.queue.items).count group := by
  have spawned : (acted.progress.spawned.map clientThread).flatMap
      (fun t => Strands.dues t.stack) = [] := by
    simp [clientThread]
  simp only [dues, acted.threads, acted.threads', List.flatMap_append, List.flatMap_cons,
    acted.stack, dues_append, List.count_append, spawned, List.count_nil]
  omega

theorem count_dues_le (s : State W) (group : GroupId) :
    s.dues.count group ≤ weigh (Stake.tokens group) s.stakes := by
  have frames : ∀ stack : List (Frame W), (Strands.dues stack).count group ≤
      weigh (Stake.tokens group) (Frame.stakesOf stack) := fun stack => by
    induction stack with
    | nil => exact Nat.le_refl _
    | cons frame rest ih =>
      have here : frame.due?.toList.count group ≤ weigh (Stake.tokens group) frame.stakes := by
        cases frame <;> simp [Stake.tokens, one, List.count_singleton]
      rw [dues_cons, List.count_append, Frame.stakesOf_cons, weigh_append]
      omega
  have all : ∀ threads : List (Thread W),
      (threads.flatMap fun t => Strands.dues t.stack).count group ≤
        weigh (Stake.tokens group) (Thread.stakesOf threads) := fun threads => by
    induction threads with
    | nil => exact Nat.le_refl _
    | cons t rest ih =>
      have here := frames t.stack
      have cons : Thread.stakesOf (t :: rest) = Frame.stakesOf t.stack ++ Thread.stakesOf rest :=
        List.flatMap_cons
      rw [List.flatMap_cons, List.count_append, cons, weigh_append]
      omega
  have queued : ∀ items : List (Item W), (Item.groups items).count group ≤
      weigh (Stake.tokens group) (items.map Item.stake) := fun items => by
    induction items with
    | nil => exact Nat.le_refl _
    | cons item rest ih =>
      unfold Item.groups at ih ⊢
      cases item with
      | job job => simp [Stake.tokens] at ih ⊢; exact ih
      | group g => simp [Stake.tokens, one, List.count_cons] at ih ⊢; omega
  have threads := all s.threads
  have items := queued s.shared.queue.items
  simp only [dues, stakes, Shared.stakes, List.count_append, weigh_append]
  omega

theorem count_dues_le_one {history : List Event} {s : State W} (lanes : Lanes history s)
    (group : GroupId) : s.dues.count group ≤ 1 := by
  have le := s.count_dues_le group
  have token := lanes.token group
  have most := Bool.toNat_le (s.shared.isTaken group)
  omega

/-- What is due after a step was due before, or a job waits in it now. -/
theorem due_of_acted {client : Client W} {s s' : State W} {thread : ThreadId} {choice : Choice}
    (acted : Acted client s s' thread choice) {group : GroupId} (due : group ∈ s'.dues) :
    group ∈ s.dues ∨ ∃ g, s'.shared.groups[group]? = some g ∧ g.jobs ≠ [] := by
  have count := count_dues_of_acted acted group
  rw [acted.shared'] at count ⊢
  rw [← List.count_pos_iff] at due ⊢
  cases acted.move.feeds with
  | keep queue none =>
    rw [queue, none, List.count_nil] at count
    left; omega
  | push job asker top pushed none =>
    have items : Item.groups acted.progress.shared.queue.items =
        Item.groups s.shared.queue.items := by
      simp [Item.groups, RunQueue.items_of_push pushed]
    rw [items, none, List.count_nil] at count
    left; omega
  | submit other asker top pushed none =>
    have items : Item.groups acted.progress.shared.queue.items =
        Item.groups s.shared.queue.items ++ [other] := by
      simp [Item.groups, RunQueue.items_of_push pushed]
    rw [items, none, top, List.count_nil] at count
    simp at count
    left; omega
  | start job top popped none =>
    have items : Item.groups s.shared.queue.items =
        Item.groups acted.progress.shared.queue.items := by
      simp [Item.groups, RunQueue.items_of_pop popped]
    rw [items, none, List.count_nil] at count
    left; omega
  | fetch other top popped frames =>
    have items : Item.groups s.shared.queue.items =
        other :: Item.groups acted.progress.shared.queue.items := by
      simp [Item.groups, RunQueue.items_of_pop popped]
    rw [items, frames, top] at count
    simp [List.count_cons] at count
    left; omega
  | close top queue none =>
    have items : Item.groups acted.progress.shared.queue.items = [] := by rw [queue]; rfl
    rw [items, none, List.count_nil] at count
    left; omega
  | send other asker g top queue frames found waiting =>
    by_cases same : other = group
    · exact .inr ⟨g, same ▸ found, waiting⟩
    · rw [queue, frames] at count
      simp [same] at count
      left; omega

theorem not_due_of_turn {client : Client W} {s s' : State W} {thread : ThreadId}
    {choice : Choice} {history : List Event} (acted : Acted client s s' thread choice)
    (lanes : Lanes history s) {group : GroupId} {above : List (Frame W)}
    (top : acted.top = .turn group :: above) : group ∉ s'.dues := by
  have count := count_dues_of_acted acted group
  have once := count_dues_le_one lanes group
  have own : 0 < (Strands.dues acted.top).count group := by simp [top]
  rw [← List.count_pos_iff]
  rw [acted.shared'] at count
  cases acted.move.feeds with
  | keep queue none =>
    rw [queue, none, List.count_nil] at count
    omega
  | send other asker g none =>
    rw [none] at own
    cases own
  | push _ _ only | submit _ _ only | start _ only | fetch _ only | close only =>
    rw [top] at only
    cases only

namespace Trace

variable {client : Client W} {workers : Nat} {world : W} {kept : List ObjectId}
  {threads : List (Code W)} {s : State W} {history : List Event}

/-- A closed queue is empty. -/
theorem items_of_closed
    (trace : Trace client (State.start workers world kept threads) history s)
    (closed : s.shared.queue.closed = true) : s.shared.queue.items = [] := by
  refine trace.keeps (fun _ s => s.shared.queue.closed = true → s.shared.queue.items = [])
    (fun _ => rfl) ?_ closed
  intro before e moment ih now
  obtain ⟨acted⟩ := step_cases moment.taken
  rw [acted.shared'] at now ⊢
  cases acted.move.feeds with
  | keep queue | send _ _ _ _ queue =>
    rw [queue] at now ⊢
    exact ih now
  | push job asker _ pushed | submit group asker _ pushed =>
    have still : moment.s.shared.queue.closed = true := by
      rwa [← RunQueue.closed_of_push pushed]
    rw [RunQueue.push_eq_none_iff.2 still] at pushed
    cases pushed
  | start job _ popped | fetch group _ popped =>
    have still : moment.s.shared.queue.closed = true := by
      rwa [← RunQueue.closed_of_pop popped]
    have items := RunQueue.items_of_pop popped
    rw [ih still] at items
    cases items
  | close _ queue => rw [queue]; rfl

/-- A turn is begun by the frame that holds the group's token. -/
theorem top_of_turned
    (trace : Trace client (State.start workers world kept threads) history s) {s' : State W}
    {thread : ThreadId} {choice : Choice} (acted : Acted client s s' thread choice)
    {r : ObjectId} {group : GroupId} {f : FutureId}
    (event : s.event client thread = .turned r group f) :
    ∃ above, acted.top = .turn group :: above := by
  have stacked := trace.grounded acted.actor (by rw [acted.threads]; simp)
  rw [acted.stack] at stacked
  obtain ⟨above, frame, top, sound⟩ := acted.move.event_sound acted.actor.worker stacked
  rw [← acted.event, event] at sound
  rw [show frame = .turn group from sound] at top
  exact ⟨above, top⟩

end Trace

section Due

variable {client : Client W} {workers : Nat} {world : W} {kept : List ObjectId}
  {threads : List (Code W)} {before : List Event} {e : Event}

/-- The lane of a group that stays due only grows at its back: whoever drains it gives the
token back, and whoever begins its turn had the only token. -/
theorem Moment.grows_of_due
    (moment : Moment client (State.start workers world kept threads) before e) {group : GroupId}
    {g : Group W} (due : group ∈ moment.s'.dues)
    (found : moment.s.shared.groups[group]? = some g) :
    ∃ g', moment.s'.shared.groups[group]? = some g' ∧ g.jobs <+: g'.jobs := by
  have shifts := (step_shift moment.taken).1
  rw [moment.event] at shifts
  refine shifts.grows found (fun futures drained => ?_) (fun r f turned => ?_)
  · subst drained
    have free : moment.s'.shared.isTaken group = false := by
      rw [Lanes.isTaken_modify found shifts.2.1, if_pos rfl]
      rfl
    have token := moment.trace'.lanes.token group
    have le := count_dues_le moment.s' group
    have pos := List.count_pos_iff.2 due
    rw [free, Bool.toNat_false] at token
    omega
  · obtain ⟨acted⟩ := step_cases moment.taken
    obtain ⟨above, top⟩ := moment.trace.top_of_turned acted (moment.event.trans turned)
    exact not_due_of_turn acted moment.trace.lanes top due

end Due

namespace Trace

variable {client : Client W} {workers : Nat} {world : W} {kept : List ObjectId}
  {threads : List (Code W)} {s : State W} {history : List Event}

/-- A job waits in every group that is due. -/
theorem laden (trace : Trace client (State.start workers world kept threads) history s) :
    ∀ group ∈ s.dues, ∃ g, s.shared.groups[group]? = some g ∧ g.jobs ≠ [] := by
  refine trace.keeps (fun _ s => ∀ group ∈ s.dues,
    ∃ g, s.shared.groups[group]? = some g ∧ g.jobs ≠ []) (fun group due => ?_) ?_
  · have le := count_dues_le (State.start workers world kept threads) group
    have pos := List.count_pos_iff.2 due
    rw [stakes_start, weigh_nil] at le
    omega
  intro before e moment ih group due
  obtain ⟨acted⟩ := step_cases moment.taken
  rcases due_of_acted acted due with earlier | waiting
  · obtain ⟨g, found, waiting⟩ := ih group earlier
    obtain ⟨g', found', longer⟩ := moment.grows_of_due due found
    exact ⟨g', found', fun none => waiting (List.prefix_nil.1 (none ▸ longer))⟩
  · exact waiting

/-- Only the innermost frame of a thread is about to begin a turn. -/
theorem turn_innermost
    (trace : Trace client (State.start workers world kept threads) history s) :
    ∀ t ∈ s.threads, Stacked NoTurnBelow t.stack := by
  refine trace.keeps (fun _ s => ∀ t ∈ s.threads, Stacked NoTurnBelow t.stack)
    (stacked_start (by simp [NoTurnBelow]) (by simp [NoTurnBelow])) ?_
  intro before e moment ih
  obtain ⟨acted⟩ := step_cases moment.taken
  refine stacked_step acted ih (fun _ _ h => h) (fun stacked rest => ?_) (by simp [NoTurnBelow])
  have lower : ∀ group, .turn group ∉ acted.below := by
    obtain ⟨frame, above, top⟩ := acted.move.top_ne_nil
    rw [top, List.cons_append] at stacked
    exact fun group mem => stacked.1 group (List.mem_append_right _ mem)
  cases acted.move.feeds with
  | keep _ none | push _ _ _ _ none | submit _ _ _ _ none | start _ _ _ none | close _ _ none =>
    exact stacked_of_dues none lower rest
  | fetch group _ _ frames =>
    rw [frames]
    exact ⟨by simpa [NoTurnBelow] using lower, lower, rest⟩
  | send group asker g _ _ frames =>
    rw [frames]
    exact ⟨lower, rest⟩

end Trace
end State
end Strands
