/-
States that differ in the numbers of groups alone.

Two shared states are `Alike` if all that is bare of groups is the same in both, every
receiver has the same bench, and the entries of the run queue are the same but for the
numbers of groups, which stand for the same receivers.  Frames are compared in the same way;
and where code has asked for a number of groups and is going to make nothing of the answer,
the answers may differ.

`Frame.Alike.step` says that alike frames take alike steps on alike states, and
`Frame.Alike.event` that what is told of them is the same, up to the numbers of groups.
-/
import Mathlib.Data.List.Forall2
import Strands.Proofs.ReceiverGroups
import Strands.Proofs.GroupFree

namespace Strands

variable {W : Type}

/-! ## What is compared -/

def Shared.Peers (s t : Shared W) (g g' : GroupId) : Prop :=
  ∃ r, s.owner g = some r ∧ t.owner g' = some r

/-- The state without groups, table and entries of the run queue. -/
def Shared.bare (s : Shared W) : Shared W :=
  { s with queue := { s.queue with items := [] }, groups := [], table := {} }

inductive Item.Alike (R : GroupId → GroupId → Prop) : Item W → Item W → Prop
  | job (job : Job W) : Alike R (.job job) (.job job)
  | group {g g' : GroupId} : R g g' → Alike R (.group g) (.group g')

inductive Frame.Alike (R : GroupId → GroupId → Prop) : Frame W → Frame W → Prop
  | same {frame : Frame W} : frame.group? = none → Alike R frame frame
  | append {g g' : GroupId} (receiver : ObjectId) (job : Job W) (asker : Asker) :
      R g g' → Alike R (.append receiver g job asker) (.append receiver g' job asker)
  | submit {g g' : GroupId} (asker : Asker) : R g g' → Alike R (.submit g asker) (.submit g' asker)
  | drain {g g' : GroupId} : R g g' → Alike R (.drain g) (.drain g')
  | turn {g g' : GroupId} : R g g' → Alike R (.turn g) (.turn g')
  | endTurn {g g' : GroupId} : R g g' → Alike R (.endTurn g) (.endTurn g')

/-- The same stack, but for the numbers of groups, and but for a number that code is answered
with of which it makes nothing. -/
inductive Frame.StackAlike (R : GroupId → GroupId → Prop) :
    List (Frame W) → List (Frame W) → Prop
  | frames {a b : List (Frame W)} : List.Forall₂ (Alike R) a b → StackAlike R a b
  | number {m n : Nat} {role : Role W} {next : Reply → Code W} {a b : List (Frame W)} :
      next (.number m) = next (.number n) → List.Forall₂ (Alike R) a b →
      StackAlike R (.deliver (.number m) :: .waiting role next :: a)
        (.deliver (.number n) :: .waiting role next :: b)

structure Shared.Alike (s t : Shared W) : Prop where
  bare : s.bare = t.bare
  items : List.Forall₂ (Item.Alike (s.Peers t)) s.queue.items t.queue.items
  bench : ∀ r, s.bench r = t.bench r

structure Progress.Alike (p q : Progress W) : Prop where
  shared : p.shared.Alike q.shared
  frames : Frame.StackAlike (p.shared.Peers q.shared) p.frames q.frames
  spawned : p.spawned = q.spawned

/-- Code that, if it asks how many groups there are or how many a sweep has reclaimed, makes
nothing of the answer, and that, if it waits, does not wait for a number of groups. -/
def Code.Heedless : Code W → Prop
  | ask .sweep next | ask .groupCount next => ∀ m n, next (.number m) = next (.number n)
  | await ready _ => ∀ gauges groups world, ready { gauges with groups } world = ready gauges world
  | _ => True

/-- A frame that, if it runs code, runs heedless code. -/
def Frame.Heedless : Frame W → Prop
  | running _ code => code.Heedless
  | _ => True

/-- The event, with all groups given one number. -/
def Event.unnumbered : Event → Event
  | appended receiver _ future took => .appended receiver 0 future took
  | drained _ futures => .drained 0 futures
  | turned receiver _ future => .turned receiver 0 future
  | turnEnded _ => .turnEnded 0
  | e => e

/-! ## Comparing frames and entries -/

section Comparing

variable {R R' : GroupId → GroupId → Prop}

theorem Item.Alike.mono (le : ∀ g g', R g g' → R' g g') {a b : Item W} (alike : Alike R a b) :
    Alike R' a b := by
  cases alike with
  | job job => exact .job job
  | group peers => exact .group (le _ _ peers)

namespace Frame

theorem Alike.mono (le : ∀ g g', R g g' → R' g g') {a b : Frame W} (alike : Alike R a b) :
    Alike R' a b := by
  cases alike with
  | same none => exact .same none
  | append receiver job asker peers => exact .append receiver job asker (le _ _ peers)
  | submit asker peers => exact .submit asker (le _ _ peers)
  | drain peers => exact .drain (le _ _ peers)
  | turn peers => exact .turn (le _ _ peers)
  | endTurn peers => exact .endTurn (le _ _ peers)

theorem StackAlike.mono (le : ∀ g g', R g g' → R' g g') {a b : List (Frame W)}
    (alike : StackAlike R a b) : StackAlike R' a b := by
  cases alike with
  | frames frames => exact .frames (frames.imp fun _ _ => Alike.mono le)
  | number same below => exact .number same (below.imp fun _ _ => Alike.mono le)

theorem StackAlike.append {a b c d : List (Frame W)} (above : StackAlike R a b)
    (below : List.Forall₂ (Alike R) c d) : StackAlike R (a ++ c) (b ++ d) := by
  cases above with
  | frames frames => exact .frames (List.rel_append frames below)
  | number same rest => exact .number same (List.rel_append rest below)

theorem alike_self {frames : List (Frame W)} (none : ∀ frame ∈ frames, frame.group? = none) :
    List.Forall₂ (Alike R) frames frames :=
  List.forall₂_same.2 fun frame mem => .same (none frame mem)

theorem Alike.behalf {a b : Frame W} (alike : Alike R a b) : a.behalf = b.behalf := by
  cases alike <;> rfl

theorem Alike.held {a b : Frame W} (alike : Alike R a b) : a.held = b.held := by
  cases alike <;> rfl

theorem context_eq {a b : List (Frame W)} (alike : List.Forall₂ (Alike R) a b) :
    context a = context b := by
  induction alike with
  | nil => rfl
  | cons here _ ih =>
    rw [context, List.flatMap_cons, here.behalf]
    exact congrArg _ ih

end Frame

end Comparing

/-! ## Alike shared states -/

namespace Shared

variable {s t : Shared W} {group group' : GroupId} {g g' : Group W}

theorem eq_adopt_of_bare (same : s.bare = t.bare) : t = s.adopt t := by
  obtain ⟨world, queries, futures, ⟨items, closed⟩, groups, table⟩ := s
  obtain ⟨world', queries', futures', ⟨items', closed'⟩, groups', table'⟩ := t
  simp only [bare, mk.injEq, RunQueue.mk.injEq] at same
  simp [adopt, same]

theorem bare_locate (s : Shared W) (isAlive : ObjectId → Bool) (receiver : ObjectId) :
    (s.locate isAlive receiver).2.bare = s.bare := by
  unfold locate
  split <;> rfl

theorem items_locate (s : Shared W) (isAlive : ObjectId → Bool) (receiver : ObjectId) :
    (s.locate isAlive receiver).2.queue.items = s.queue.items := by
  unfold locate
  split <;> rfl

theorem peers_modify {change : Group W → Group W} (kept : ∀ g, (change g).object = g.object)
    (a b : GroupId) :
    (s.modifyGroup group change).Peers (t.modifyGroup group' change) a b ↔ s.Peers t a b := by
  simp only [Peers, owner_modify kept]

namespace Alike

variable (alike : s.Alike t)

include alike

theorem futures : t.futures = s.futures := (congrArg Shared.futures alike.bare).symm

theorem run_eq (client : Client W) (job : Job W) :
    job.run client t.futures = job.run client s.futures := by rw [alike.futures]

theorem closed : t.queue.closed = s.queue.closed :=
  (congrArg (fun u : Shared W => u.queue.closed) alike.bare).symm

theorem length_items : t.queue.items.length = s.queue.items.length := alike.items.length_eq.symm

/-- The gauges tell alike states apart by the number of groups at most. -/
theorem gauges : t.gauges = { s.gauges with groups := t.table.size } := by
  have same (read : Shared W → Nat) (blind : ∀ u : Shared W, read u.bare = read u) :
      read t = read s := by
    rw [← blind t, ← blind s, alike.bare]
  simp only [Shared.gauges, alike.length_items, Gauges.mk.injEq, true_and]
  exact ⟨same Shared.inFlight fun _ => rfl, (congrArg Shared.flag alike.bare).symm⟩

theorem withItems {items items' : List (Item W)}
    (same : List.Forall₂ (Item.Alike (s.Peers t)) items items') :
    Alike { s with queue := { s.queue with items } }
      { t with queue := { t.queue with items := items' } } where
  bare := alike.bare
  items := same
  bench := alike.bench

/-- Two groups of one receiver that the tables have for it are the same but for their
numbers. -/
theorem group_eq (peers : s.Peers t group group') (found : s.groups[group]? = some g)
    (listed : s.table.get? g.object = some group) (found' : t.groups[group']? = some g')
    (listed' : t.table.get? g'.object = some group') : g' = g := by
  obtain ⟨r, own, own'⟩ := peers
  rw [owner_of_found found] at own
  rw [owner_of_found found'] at own'
  cases own
  have object : g'.object = g.object := Option.some.inj own'
  calc
    g' = t.bench g'.object := (bench_of_listed listed' found').symm
    _ = s.bench g.object := by rw [object, alike.bench]
    _ = g := bench_of_listed listed found

end Alike
end Shared

/-! ## Steps of alike frames -/

section Steps

variable {client : Client W} {s t : State W} {history history' : List Event}
  {group group' : GroupId} {g : Group W}

/-- Two groups of one receiver remain alike, and so does all else, if both are changed in the
same way. -/
theorem Shared.Alike.modify (alike : s.shared.Alike t.shared) (lanes : Lanes history s)
    (lanes' : Lanes history' t) (found : s.shared.groups[group]? = some g)
    (listed : s.shared.table.get? g.object = some group)
    (found' : t.shared.groups[group']? = some g)
    (listed' : t.shared.table.get? g.object = some group') {change : Group W → Group W}
    (kept : ∀ g, (change g).object = g.object) :
    (s.shared.modifyGroup group change).Alike (t.shared.modifyGroup group' change) where
  bare := alike.bare
  items := alike.items.imp fun _ _ => Item.Alike.mono fun a b => (peers_modify kept a b).2
  bench r := by
    rw [lanes.bench_modify found listed, lanes'.bench_modify found' listed', alike.bench]

/-- A busy group of each state, both of one receiver, are the same but for their numbers. -/
theorem Shared.Alike.found_both (alike : s.shared.Alike t.shared) (lanes : Lanes history s)
    (lanes' : Lanes history' t) (peers : s.shared.Peers t.shared group group')
    (busy : s.Busy group) (busy' : t.Busy group') :
    ∃ g, s.shared.groups[group]? = some g ∧ s.shared.table.get? g.object = some group ∧
      t.shared.groups[group']? = some g ∧ t.shared.table.get? g.object = some group' := by
  obtain ⟨g, found, listed⟩ := lanes.listed_of_busy busy
  obtain ⟨g', found', listed'⟩ := lanes'.listed_of_busy busy'
  obtain rfl := alike.group_eq peers found listed found' listed'
  exact ⟨g', found, listed, found', listed'⟩

theorem Frame.alike_blind (alike : s.shared.Alike t.shared) {sight : Sight}
    (isAlive : ObjectId → Bool) {choice : Choice} {frame : Frame W} {p : Progress W}
    (blind : frame.isBlind = true) (taken : frame.step client sight choice s.shared = some p) :
    ∃ q, frame.step client { sight with isAlive } choice t.shared = some q ∧ p.Alike q := by
  have bare := alike.bare
  have adopted := Shared.eq_adopt_of_bare bare
  refine ⟨p.adopt t.shared, ?_, ?_⟩
  · rw [adopted, Frame.step_adopt (adopted ▸ alike.length_items) sight isAlive choice blind, taken]
    rfl
  · have untouched := Frame.step_adopt_self blind taken
    have items : p.shared.queue.items = s.shared.queue.items :=
      (congrArg (fun u : Shared W => u.queue.items) untouched).symm
    have groups : p.shared.groups = s.shared.groups := (congrArg Shared.groups untouched).symm
    have table : p.shared.table = s.shared.table := (congrArg Shared.table untouched).symm
    have peers : ∀ a b, s.shared.Peers t.shared a b →
        p.shared.Peers (p.shared.adopt t.shared) a b := by
      intro a b peers
      simp only [Shared.Peers, Shared.owner, groups]
      exact peers
    refine ⟨⟨rfl, ?_, fun r => ?_⟩, ?_, rfl⟩
    · rw [items]
      exact alike.items.imp fun _ _ => Item.Alike.mono peers
    · simp only [Shared.bench, groups, table]
      exact alike.bench r
    · exact .frames (Frame.alike_self (Frame.step_groupless blind taken))

theorem pushStep_alike (alike : s.shared.Alike t.shared) (job : Job W) (asker : Asker) :
    (pushStep s.shared job asker).Alike (pushStep t.shared job asker) := by
  by_cases shut : s.shared.queue.closed = true
  · have shut' : t.shared.queue.closed = true := alike.closed.trans shut
    simp only [pushStep, RunQueue.push, if_pos shut, if_pos shut']
    refine ⟨alike, .frames (Frame.alike_self (groupless_of_aside ?_)), rfl⟩
    simp
  · have shut' : ¬t.shared.queue.closed = true := alike.closed ▸ shut
    simp only [pushStep, RunQueue.push, if_neg shut, if_neg shut']
    refine ⟨alike.withItems (List.rel_append alike.items (.cons (.job job) .nil)),
      .frames (Frame.alike_self (groupless_of_aside ?_)), rfl⟩
    simp [Frame.isAside, Frame.isApart, Frame.isLocate, Frame.isOnRound, Frame.group?]

theorem submitStep_alike (alike : s.shared.Alike t.shared)
    (peers : s.shared.Peers t.shared group group') (asker : Asker) :
    (submitStep s.shared group asker).Alike (submitStep t.shared group' asker) := by
  have answered (result : Except ScheduleError Unit) :
      List.Forall₂ (Frame.Alike (s.shared.Peers t.shared)) (asker.answer result : List (Frame W))
        (asker.answer result) :=
    Frame.alike_self (groupless_of_aside (asker.aside_answer result))
  by_cases shut : s.shared.queue.closed = true
  · have shut' : t.shared.queue.closed = true := alike.closed.trans shut
    simp only [submitStep, RunQueue.push, if_pos shut, if_pos shut']
    exact ⟨alike, .frames (.cons (.drain peers) (answered _)), rfl⟩
  · have shut' : ¬t.shared.queue.closed = true := alike.closed ▸ shut
    simp only [submitStep, RunQueue.push, if_neg shut, if_neg shut']
    exact ⟨alike.withItems (List.rel_append alike.items (.cons (.group peers) .nil)),
      .frames (.cons (.same rfl) (answered _)), rfl⟩

theorem pollStep_alike (alike : s.shared.Alike t.shared) :
    (pollStep client s.shared).Alike (pollStep client t.shared) := by
  have items := alike.items
  simp only [pollStep, RunQueue.pop, alike.run_eq]
  generalize s.shared.queue.items = a at items
  generalize t.shared.queue.items = b at items
  cases items with
  | nil => exact ⟨alike, .frames (.cons (.same rfl) .nil), rfl⟩
  | cons first rest =>
    cases first with
    | job job =>
      exact ⟨alike.withItems rest, .frames (.cons (.same rfl) (.cons (.same rfl) .nil)), rfl⟩
    | group peers =>
      exact ⟨alike.withItems rest, .frames (.cons (.turn peers) (.cons (.same rfl) .nil)), rfl⟩

theorem Item.refuse_alike {R : GroupId → GroupId → Prop} {a b : List (Item W)}
    (alike : List.Forall₂ (Item.Alike R) a b) :
    List.Forall₂ (Frame.Alike R) (a.flatMap Item.refuse) (b.flatMap Item.refuse) := by
  induction alike with
  | nil => exact .nil
  | cons first _ ih =>
    refine List.rel_append ?_ ih
    cases first with
    | job job => exact Frame.alike_self (groupless_of_aside job.aside_refuse)
    | group peers => exact .cons (.drain peers) .nil

theorem closeStep_alike (alike : s.shared.Alike t.shared) :
    (closeStep s.shared).Alike (closeStep t.shared) where
  shared :=
    { bare := congrArg (fun u : Shared W => { u with queue := u.queue.close }) alike.bare
      items := .nil
      bench := alike.bench }
  frames := .frames (List.rel_append (Item.refuse_alike alike.items)
    (Frame.alike_self (by simp [Frame.group?])))
  spawned := rfl

theorem locateStep_alike (alike : s.shared.Alike t.shared) (lanes : Lanes history s)
    (lanes' : Lanes history' t) (a b : ObjectId → Bool) (receiver : ObjectId) (job : Job W)
    (asker : Asker) :
    (locateStep a s.shared receiver job asker).Alike
      (locateStep b t.shared receiver job asker) where
  shared :=
    { bare := by
        rw [locateStep, locateStep, Shared.bare_locate, Shared.bare_locate]
        exact alike.bare
      items := by
        rw [locateStep, locateStep, Shared.items_locate, Shared.items_locate]
        refine alike.items.imp fun _ _ => Item.Alike.mono fun g g' peers => ?_
        obtain ⟨r, own, own'⟩ := peers
        exact ⟨r, Shared.owner_locate a receiver own, Shared.owner_locate b receiver own'⟩
      bench := fun r => by
        rw [locateStep, locateStep, lanes.bench_locate, lanes'.bench_locate, alike.bench] }
  frames := .frames (.cons (.append receiver job asker
    ⟨receiver, lanes.owner_locate_self a receiver, lanes'.owner_locate_self b receiver⟩) .nil)
  spawned := rfl

section Busy

variable (alike : s.shared.Alike t.shared) (lanes : Lanes history s) (lanes' : Lanes history' t)
  (peers : s.shared.Peers t.shared group group') (found : s.shared.groups[group]? = some g)
  (listed : s.shared.table.get? g.object = some group)
  (found' : t.shared.groups[group']? = some g)
  (listed' : t.shared.table.get? g.object = some group')

include alike lanes lanes' peers found listed found' listed'

theorem appendStep_alike (job : Job W) (asker : Asker) :
    (appendStep s.shared group job asker).Alike (appendStep t.shared group' job asker) := by
  have kept : ∀ g : Group W, (g.append job).object = g.object := fun _ => rfl
  simp only [appendStep, found, found']
  refine ⟨alike.modify lanes lanes' found listed found' listed' kept, ?_, rfl⟩
  cases g.taken with
  | true => exact .frames (Frame.alike_self (groupless_of_aside (asker.aside_answer _)))
  | false => exact .frames (.cons (.submit asker ((Shared.peers_modify kept _ _).2 peers)) .nil)

omit peers in
theorem drainStep_alike : (drainStep s.shared group).Alike (drainStep t.shared group') := by
  have kept : ∀ g : Group W, g.drain.object = g.object := fun _ => rfl
  simp only [drainStep, found, found']
  exact ⟨alike.modify lanes lanes' found listed found' listed' kept,
    .frames (Frame.alike_self (groupless_of_aside (Job.aside_refuse_all _))), rfl⟩

theorem turnStep_alike :
    (turnStep client s.shared group).Alike (turnStep client t.shared group') := by
  have kept : ∀ g : Group W, g.next.2.object = g.object := fun g => by
    unfold Group.next
    split <;> rfl
  simp only [turnStep, found, found', alike.run_eq]
  refine ⟨alike.modify lanes lanes' found listed found' listed' kept, .frames ?_, rfl⟩
  cases g.next.1 with
  | none => exact .nil
  | some job =>
    exact .cons (.same rfl) (.cons (.endTurn ((Shared.peers_modify kept _ _).2 peers)) .nil)

theorem endTurnStep_alike : (endTurnStep s.shared group).Alike (endTurnStep t.shared group') := by
  have kept : ∀ g : Group W, g.endTurn.object = g.object := fun _ => rfl
  simp only [endTurnStep, found, found']
  refine ⟨alike.modify lanes lanes' found listed found' listed' kept, .frames ?_, rfl⟩
  cases g.jobs.isEmpty with
  | true => exact .nil
  | false => exact .cons (.submit .nobody ((Shared.peers_modify kept _ _).2 peers)) .nil

end Busy

theorem Shared.Alike.sweep_left {u : Shared W} (alike : s.shared.Alike u)
    (lanes : Lanes history s) (isAlive : ObjectId → Bool) :
    (s.shared.sweep isAlive).Alike u where
  bare := alike.bare
  items := alike.items
  bench r := by rw [lanes.bench_swept, alike.bench]

theorem Shared.Alike.sweep_right {u : Shared W} (alike : u.Alike s.shared)
    (lanes : Lanes history s) (isAlive : ObjectId → Bool) :
    u.Alike (s.shared.sweep isAlive) where
  bare := alike.bare
  items := alike.items
  bench r := by rw [lanes.bench_swept, alike.bench]

/-- Heedless code that could see the number of groups goes on alike whatever it is. -/
theorem Code.alike_step (alike : s.shared.Alike t.shared) (lanes : Lanes history s)
    (lanes' : Lanes history' t) {sight : Sight} (isAlive : ObjectId → Bool) {choice : Choice}
    {role : Role W} {code : Code W} {p : Progress W} (heedless : code.Heedless)
    (sees : code.isBlind = false)
    (taken : code.step client sight choice.late s.shared role = some p) :
    ∃ q, code.step client { sight with isAlive } choice.late t.shared role = some q ∧
      p.Alike q := by
  cases code with
  | await ready next =>
    have world : t.shared.world = s.shared.world := (congrArg Shared.world alike.bare).symm
    have same : ready t.shared.gauges t.shared.world = ready s.shared.gauges s.shared.world := by
      rw [alike.gauges, world]
      exact heedless _ _ _
    simp only [step] at taken ⊢
    rw [same]
    split at taken
    · rename_i holds
      cases taken
      rw [if_pos holds]
      exact ⟨_, rfl, alike, .frames (.cons (.same rfl) .nil), rfl⟩
    · cases taken
  | ask request next =>
    cases request with
    | sweep =>
      cases taken
      exact ⟨_, rfl, (alike.sweep_left lanes _).sweep_right lanes' _, .number (heedless _ _) .nil,
        rfl⟩
    | groupCount =>
      cases taken
      exact ⟨_, rfl, alike, .number (heedless _ _) .nil, rfl⟩
    | _ => cases sees
  | _ => cases sees

/-- Alike frames take alike steps on alike states. -/
theorem Frame.Alike.step {a b : Frame W} (same : Alike (s.shared.Peers t.shared) a b)
    (alike : s.shared.Alike t.shared) (lanes : Lanes history s) (lanes' : Lanes history' t)
    (busy : ∀ group, a.group? = some group → s.Busy group)
    (busy' : ∀ group, b.group? = some group → t.Busy group) {sight : Sight}
    (isAlive : ObjectId → Bool) {choice : Choice} {p : Progress W} (heedless : a.Heedless)
    (taken : a.step client sight choice s.shared = some p) :
    ∃ q, b.step client { sight with isAlive } choice t.shared = some q ∧ p.Alike q := by
  cases same with
  | same none =>
    by_cases blind : a.isBlind = true
    · exact alike_blind alike isAlive blind taken
    · cases a with
      | running role code =>
        exact Code.alike_step alike lanes lanes' isAlive heedless (eq_false_of_ne_true blind) taken
      | push job asker => cases taken; exact ⟨_, rfl, pushStep_alike alike job asker⟩
      | locate receiver job asker =>
        cases taken
        exact ⟨_, rfl, locateStep_alike alike lanes lanes' _ _ receiver job asker⟩
      | poll => cases taken; exact ⟨_, rfl, pollStep_alike alike⟩
      | close => cases taken; exact ⟨_, rfl, closeStep_alike alike⟩
      | append receiver group job asker | submit group asker | drain group | turn group
      | endTurn group => cases none
      | _ => exact absurd rfl blind
  | submit asker peers => cases taken; exact ⟨_, rfl, submitStep_alike alike peers asker⟩
  | append receiver job asker peers =>
    cases taken
    obtain ⟨g, found, listed, found', listed'⟩ :=
      alike.found_both lanes lanes' peers (busy _ rfl) (busy' _ rfl)
    exact ⟨_, rfl, appendStep_alike alike lanes lanes' peers found listed found' listed' job asker⟩
  | drain peers =>
    cases taken
    obtain ⟨g, found, listed, found', listed'⟩ :=
      alike.found_both lanes lanes' peers (busy _ rfl) (busy' _ rfl)
    exact ⟨_, rfl, drainStep_alike alike lanes lanes' found listed found' listed'⟩
  | turn peers =>
    cases taken
    obtain ⟨g, found, listed, found', listed'⟩ :=
      alike.found_both lanes lanes' peers (busy _ rfl) (busy' _ rfl)
    exact ⟨_, rfl, turnStep_alike alike lanes lanes' peers found listed found' listed'⟩
  | endTurn peers =>
    cases taken
    obtain ⟨g, found, listed, found', listed'⟩ :=
      alike.found_both lanes lanes' peers (busy _ rfl) (busy' _ rfl)
    exact ⟨_, rfl, endTurnStep_alike alike lanes lanes' peers found listed found' listed'⟩

theorem Item.futures_eq {R : GroupId → GroupId → Prop} {a b : List (Item W)}
    (alike : List.Forall₂ (Item.Alike R) a b) : Item.futures b = Item.futures a := by
  induction alike with
  | nil => rfl
  | cons first _ ih =>
    cases first with
    | job job => exact congrArg (job.future :: ·) ih
    | group peers => exact ih

/-- What is told of the steps of alike frames is the same, but for the numbers of groups. -/
theorem Frame.Alike.event {a b : Frame W} (same : Alike (s.shared.Peers t.shared) a b)
    (alike : s.shared.Alike t.shared) (lanes : Lanes history s) (lanes' : Lanes history' t)
    (busy : ∀ group, a.group? = some group → s.Busy group)
    (busy' : ∀ group, b.group? = some group → t.Busy group) (worker : Bool)
    {below below' : List (Frame W)} (behalf : context below' = context below) :
    (b.event client worker t.shared below').unnumbered =
      (a.event client worker s.shared below).unnumbered := by
  cases same with
  | same none =>
    by_cases blind : a.isBlind = true
    · rw [Shared.eq_adopt_of_bare alike.bare, Frame.event_adopt worker blind behalf]
    · cases a with
      | running role code =>
        cases code with
        | ask request next =>
          cases request with
          | sweep | groupCount => rfl
          | _ => exact absurd rfl blind
        | await ready next => rfl
        | _ => exact absurd rfl blind
      | push job asker => simp only [Frame.event, alike.closed]
      | locate receiver job asker => rfl
      | poll =>
        have items := alike.items
        simp only [Frame.event]
        generalize s.shared.queue.items = entries at items
        generalize t.shared.queue.items = entries' at items
        cases items with
        | nil => rfl
        | cons first _ => cases first <;> rfl
      | close => simp only [Frame.event, Item.futures_eq alike.items]
      | append receiver group job asker | submit group asker | drain group | turn group
      | endTurn group => cases none
      | _ => exact absurd rfl blind
  | submit asker peers => rfl
  | append receiver job asker peers =>
    obtain ⟨g, found, _, found', _⟩ :=
      alike.found_both lanes lanes' peers (busy _ rfl) (busy' _ rfl)
    simp only [Frame.event, found, found', Event.unnumbered]
  | drain peers =>
    obtain ⟨g, found, _, found', _⟩ :=
      alike.found_both lanes lanes' peers (busy _ rfl) (busy' _ rfl)
    simp only [Frame.event, found, found', Event.unnumbered]
  | turn peers =>
    obtain ⟨g, found, _, found', _⟩ :=
      alike.found_both lanes lanes' peers (busy _ rfl) (busy' _ rfl)
    simp only [Frame.event, found, found']
    cases g.jobs <;> rfl
  | endTurn peers =>
    obtain ⟨g, found, _, found', _⟩ :=
      alike.found_both lanes lanes' peers (busy _ rfl) (busy' _ rfl)
    simp only [Frame.event, found, found']
    cases g.jobs.isEmpty <;> rfl

end Steps

/-! ## Steps of alike stacks -/

section Stacks

/-- Groups stay with their receivers. -/
theorem Event.Shifts.owner {e : Event} {isAlive : ObjectId → Bool} {s s' : Shared W}
    {group : GroupId} {r : ObjectId} (shifts : e.Shifts isAlive s s')
    (own : s.owner group = some r) : s'.owner group = some r := by
  have modified {other : GroupId} {change : Group W → Group W}
      (groups : s'.groups = s.groups.modify other change)
      (kept : ∀ g, (change g).object = g.object) : s'.owner group = some r := by
    have same : s'.owner group = (s.modifyGroup other change).owner group := by
      simp only [Shared.owner, groups]
      rfl
    rw [same, Shared.owner_modify kept, own]
  cases e with
  | located receiver =>
    have later := Shared.owner_locate isAlive receiver own
    simp only [Shared.owner, shifts.1] at later ⊢
    exact later
  | appended receiver other f took =>
    obtain ⟨_, g, job, _, _, _, groups⟩ := shifts
    exact modified groups fun _ => rfl
  | drained other futures => exact modified shifts.2.1 fun _ => rfl
  | turned receiver other f =>
    obtain ⟨_, g, job, rest, _, _, _, _, groups⟩ := shifts
    exact modified groups fun _ => rfl
  | turnEnded other => exact modified shifts.2.2 fun _ => rfl
  | _ =>
    simp only [Shared.owner, shifts.1]
    exact own

variable {client : Client W} {s t : State W} {history history' : List Event}

theorem stackStep_owner {sight : Sight} {choice : Choice} {u : Shared W} {stack : List (Frame W)}
    {p : Progress W} (taken : stackStep client sight choice u stack = some p) {group : GroupId}
    {r : ObjectId} (own : u.owner group = some r) : p.shared.owner group = some r := by
  obtain ⟨top, below, q, _, move, rfl, _⟩ := stackStep_cases true taken
  exact (move.shift true below).shared.owner own

theorem stackStep_act {sight : Sight} {choice : Choice} {u : Shared W} {frame : Frame W}
    {below : List (Frame W)}
    (notReceived : ∀ reply role next rest, frame = .deliver reply →
      below ≠ .waiting role next :: rest)
    (notPassed : ∀ reply held rest, frame = .deliver reply → below ≠ .letGo held :: rest) :
    stackStep client sight choice u (frame :: below) =
      (frame.step client sight choice u).map fun p => { p with frames := p.frames ++ below } := by
  unfold stackStep
  split
  · rename_i eq
    cases eq
  · rename_i eq
    cases eq
    exact absurd rfl (notReceived _ _ _ _ rfl)
  · rename_i eq
    cases eq
    exact absurd rfl (notPassed _ _ _ rfl)
  · rename_i eq
    cases eq
    rfl

theorem Shared.Alike.receive {u v : Shared W} (alike : u.Alike v) (reply : Reply) :
    (u.receive reply).Alike (v.receive reply) := by
  cases reply with
  | future made =>
    exact ⟨congrArg (fun w : Shared W => w.modifyFuture made Future.keep) alike.bare, alike.items,
      alike.bench⟩
  | _ => exact alike

theorem Shared.peers_receive {u v : Shared W} (reply : Reply) :
    (u.receive reply).Peers (v.receive reply) = u.Peers v := by
  cases reply <;> rfl

/-- Alike stacks take alike steps on alike states. -/
theorem Frame.StackAlike.step {a b : List (Frame W)}
    (same : StackAlike (s.shared.Peers t.shared) a b) (alike : s.shared.Alike t.shared)
    (lanes : Lanes history s) (lanes' : Lanes history' t)
    (busy : ∀ frame ∈ a, ∀ group, frame.group? = some group → s.Busy group)
    (busy' : ∀ frame ∈ b, ∀ group, frame.group? = some group → t.Busy group) {sight : Sight}
    (isAlive : ObjectId → Bool) {choice : Choice} {p : Progress W}
    (heedless : ∀ frame ∈ a.head?, frame.Heedless)
    (taken : stackStep client sight choice s.shared a = some p) :
    ∃ q, stackStep client { sight with isAlive } choice t.shared b = some q ∧ p.Alike q := by
  cases same with
  | @number m n role next below below' makesNothing rest =>
    -- The answers differ here, and what the code goes on with does not.
    cases taken
    refine ⟨_, rfl, alike, .frames (.cons ?_ rest), rfl⟩
    rw [makesNothing]
    exact .same rfl
  | frames frames =>
    cases frames with
    | nil => cases taken
    | @cons top top' below below' here rest =>
      have whole := taken
      unfold stackStep at taken
      split at taken
      · rename_i eq
        cases eq
      · rename_i reply role next below eq
        cases eq
        cases here
        cases rest with
        | cons second rest =>
          cases second
          cases taken
          refine ⟨_, rfl, alike.receive reply, .frames (.cons (.same rfl) ?_), rfl⟩
          exact (Shared.peers_receive reply).symm ▸ rest
      · rename_i reply held below eq
        cases eq
        cases here
        cases rest with
        | cons second rest =>
          cases second
          cases taken
          exact ⟨_, rfl, alike, .frames (.cons (.same rfl) rest), rfl⟩
      · rename_i frame below notReceived notPassed eq
        cases eq
        obtain ⟨q, taken', rfl⟩ := Option.map_eq_some_iff.1 taken
        obtain ⟨q', took, progress⟩ := here.step alike lanes lanes'
          (busy _ List.mem_cons_self) (busy' _ List.mem_cons_self) isAlive
          (heedless _ rfl) taken'
        have eq : stackStep client { sight with isAlive } choice t.shared (top' :: below') =
            some { q' with frames := q'.frames ++ below' } := by
          -- A reply on top would be one on top of the other stack, with the same below it.
          rw [stackStep_act, took]
          · rfl
          · rintro reply role next others rfl rfl
            cases here
            cases rest with
            | cons second _ =>
              cases second
              exact notReceived reply role next _ rfl rfl
          · rintro reply held others rfl rfl
            cases here
            cases rest with
            | cons second _ =>
              cases second
              exact notPassed reply held _ rfl rfl
        have peers (g g' : GroupId) : s.shared.Peers t.shared g g' →
            q.shared.Peers q'.shared g g' := by
          rintro ⟨r, own, own'⟩
          exact ⟨r, stackStep_owner whole own, stackStep_owner eq own'⟩
        exact ⟨_, eq, progress.shared,
          progress.frames.append (rest.imp fun _ _ => Alike.mono peers), progress.spawned⟩

theorem stackEvent_act {worker : Bool} {u : Shared W} {frame : Frame W} {below : List (Frame W)}
    (notReply : ∀ reply, frame ≠ .deliver reply) :
    stackEvent client worker u (frame :: below) = frame.event client worker u below := by
  unfold stackEvent
  split
  · rename_i eq
    cases eq
  · rename_i eq
    cases eq
    exact absurd rfl (notReply _)
  · rename_i eq
    cases eq
    rfl

theorem stackEvent_deliver {R : GroupId → GroupId → Prop} (worker : Bool) (u v : Shared W)
    (reply : Reply) {a b : List (Frame W)} (same : List.Forall₂ (Frame.Alike R) a b) :
    stackEvent client worker v (.deliver reply :: b) =
      stackEvent client worker u (.deliver reply :: a) := by
  cases same with
  | nil => rfl
  | @cons first first' _ _ here _ =>
    cases here with
    | same none => cases first <;> rfl
    | _ => rfl

/-- What is told of the steps of alike stacks is the same, but for the numbers of groups. -/
theorem Frame.StackAlike.event {a b : List (Frame W)}
    (same : StackAlike (s.shared.Peers t.shared) a b) (alike : s.shared.Alike t.shared)
    (lanes : Lanes history s) (lanes' : Lanes history' t)
    (busy : ∀ frame ∈ a, ∀ group, frame.group? = some group → s.Busy group)
    (busy' : ∀ frame ∈ b, ∀ group, frame.group? = some group → t.Busy group) (worker : Bool) :
    (stackEvent client worker t.shared b).unnumbered =
      (stackEvent client worker s.shared a).unnumbered := by
  cases same with
  | number _ _ => rfl
  | frames frames =>
    cases frames with
    | nil => rfl
    | @cons top top' below below' here rest =>
      by_cases reply : ∃ reply, top = .deliver reply
      · obtain ⟨reply, rfl⟩ := reply
        cases here
        exact congrArg Event.unnumbered (stackEvent_deliver worker _ _ reply rest)
      · have notReply (reply' : Reply) (eq : top = .deliver reply') : False := reply ⟨reply', eq⟩
        have notReply' (reply' : Reply) (eq : top' = .deliver reply') : False := by
          subst eq
          cases here
          exact reply ⟨reply', rfl⟩
        rw [stackEvent_act notReply, stackEvent_act notReply']
        exact here.event alike lanes lanes' (busy _ List.mem_cons_self) (busy' _ List.mem_cons_self)
          worker (context_eq rest).symm

end Stacks
end Strands
