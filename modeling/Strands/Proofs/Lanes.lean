/-
Lanes: one token for each group, one group for each receiver, first in, first out.

`Lanes` is what holds of groups, tokens and the table along every trace
(`Trace.lanes`).  A group's token is held once while it is taken, and by nobody while
it is free; a group whose token is free has no job waiting; a taken group is the one
the table has for its receiver, and so is the group of a job that is about to be put
on a lane, since sweeps spare receivers that are held on to.  The jobs that were put
on a receiver's lane are, in that order, those that were taken off it and those that
wait, and the ones that began to run did so in the order in which they were taken off.
-/
import Strands.Proofs.Shift

namespace Strands

variable {W : Type}

/-! ## The table -/

namespace GroupTable

variable {t : GroupTable} {r : ObjectId}

theorem get?_insert (none : t.get? r = none) (g : GroupId) (r' : ObjectId) :
    (t.insert r g).get? r' = if r' = r then some g else t.get? r' := by
  unfold get? insert at *
  rw [List.lookup_append]
  by_cases same : r' = r
  · simp [same, none]
  · simp [same, List.lookup_cons, beq_false_of_ne same]

theorem get?_eq_some_iff (keys : (t.entries.map Prod.fst).Nodup) {g : GroupId} :
    t.get? r = some g ↔ (r, g) ∈ t.entries := by
  obtain ⟨entries, mark⟩ := t
  show entries.lookup r = some g ↔ (r, g) ∈ entries
  induction entries with
  | nil => simp
  | cons entry rest ih =>
    obtain ⟨k, g'⟩ := entry
    rw [List.map_cons, List.nodup_cons] at keys
    rw [List.lookup_cons, List.mem_cons]
    by_cases same : r = k
    · subst same
      have absent : (r, g) ∉ rest := fun mem => keys.1 (List.mem_map.2 ⟨_, mem, rfl⟩)
      simp [absent, eq_comm]
    · rw [beq_false_of_ne same, ih keys.2]
      simp [same]

theorem nodup_insert (keys : (t.entries.map Prod.fst).Nodup) (none : t.get? r = none)
    (g : GroupId) : ((t.insert r g).entries.map Prod.fst).Nodup := by
  have new : r ∉ t.entries.map Prod.fst := fun mem => by
    obtain ⟨⟨k, g'⟩, entry, rfl⟩ := List.mem_map.1 mem
    rw [(get?_eq_some_iff keys).2 entry] at none
    cases none
  unfold insert
  rw [List.map_append]
  refine List.nodup_append.2 ⟨keys, by simp, ?_⟩
  intro a mem b single same
  have key : b = r := by simpa using single
  exact new (key ▸ same ▸ mem)

theorem nodup_sweep (keys : (t.entries.map Prod.fst).Nodup) (keep : ObjectId → GroupId → Bool) :
    ((t.sweep keep).entries.map Prod.fst).Nodup :=
  keys.sublist (List.filter_sublist.map Prod.fst)

/-- A sweep keeps the entries that are to be kept, and no others. -/
theorem get?_sweep (keys : (t.entries.map Prod.fst).Nodup) (keep : ObjectId → GroupId → Bool)
    {g : GroupId} : (t.sweep keep).get? r = some g ↔ t.get? r = some g ∧ keep r g = true := by
  rw [get?_eq_some_iff (nodup_sweep keys keep), get?_eq_some_iff keys]
  exact List.mem_filter

theorem nodup_sweepIfFull (keys : (t.entries.map Prod.fst).Nodup)
    (keep : ObjectId → GroupId → Bool) :
    ((t.sweepIfFull keep).entries.map Prod.fst).Nodup := by
  unfold sweepIfFull
  split
  · exact nodup_sweep keys keep
  · exact keys

theorem get?_of_sweepIfFull (keys : (t.entries.map Prod.fst).Nodup)
    (keep : ObjectId → GroupId → Bool) {g : GroupId}
    (h : (t.sweepIfFull keep).get? r = some g) : t.get? r = some g := by
  unfold sweepIfFull at h
  split at h
  · exact ((get?_sweep keys keep).1 h).1
  · exact h

theorem get?_sweepIfFull_of_none (keys : (t.entries.map Prod.fst).Nodup)
    (keep : ObjectId → GroupId → Bool) (none : t.get? r = none) :
    (t.sweepIfFull keep).get? r = Option.none := by
  cases after : (t.sweepIfFull keep).get? r with
  | none => rfl
  | some g =>
    rw [get?_of_sweepIfFull keys keep after] at none
    cases none

theorem get?_sweepIfFull (keys : (t.entries.map Prod.fst).Nodup)
    (keep : ObjectId → GroupId → Bool) {g : GroupId} (h : t.get? r = some g)
    (kept : keep r g = true) : (t.sweepIfFull keep).get? r = some g := by
  unfold sweepIfFull
  split
  · exact (get?_sweep keys keep).2 ⟨h, kept⟩
  · exact h

end GroupTable

/-! ## What is known of lanes -/

/-- The jobs that were put on a receiver's lane, in order. -/
def appends (r : ObjectId) (history : List Event) : List FutureId :=
  history.filterMap fun
    | .appended r' _ f _ => if r' = r then some f else none
    | _ => none

/-- The jobs of a receiver's lane that began to run, in order. -/
def starts (r : ObjectId) (history : List Event) : List FutureId :=
  history.filterMap fun
    | .turned r' _ f => if r' = r then some f else none
    | _ => none

theorem appends_append (r : ObjectId) (a b : List Event) :
    appends r (a ++ b) = appends r a ++ appends r b := List.filterMap_append

theorem starts_append (r : ObjectId) (a b : List Event) :
    starts r (a ++ b) = starts r a ++ starts r b := List.filterMap_append

namespace Stake

def tokens (group : GroupId) : Stake → Nat
  | token g => one group g
  | _ => 0

end Stake

namespace Shared

def isTaken (s : Shared W) (group : GroupId) : Bool :=
  match s.groups[group]? with
  | some g => g.taken
  | none => false

def lane (s : Shared W) (r : ObjectId) : List FutureId :=
  match s.table.get? r with
  | some group =>
    match s.groups[group]? with
    | some g => g.jobs.map Job.future
    | none => []
  | none => []

theorem lane_eq {s : Shared W} {r : ObjectId} {group : GroupId} {g : Group W}
    (listed : s.table.get? r = some group) (found : s.groups[group]? = some g) :
    s.lane r = g.jobs.map Job.future := by
  simp [lane, listed, found]

end Shared

def State.targets (s : State W) : List (ObjectId × GroupId) :=
  s.threads.flatMap fun t => Strands.targets t.stack

/-- What is known of lanes. -/
structure Lanes (history : List Event) (s : State W) : Prop where
  keys : (s.shared.table.entries.map Prod.fst).Nodup
  /-- The table has groups of the receivers they are listed under. -/
  object : ∀ (r : ObjectId) (group : GroupId), s.shared.table.get? r = some group →
    ∃ g : Group W, s.shared.groups[group]? = some g ∧ g.object = r
  /-- A token is held once if it is taken, and not at all otherwise. -/
  token : ∀ group, weigh (Stake.tokens group) s.stakes = (s.shared.isTaken group).toNat
  free : ∀ (group : GroupId) (g : Group W), s.shared.groups[group]? = some g → g.taken = false →
    g.jobs = []
  listed : ∀ (group : GroupId) (g : Group W), s.shared.groups[group]? = some g → g.taken = true →
    s.shared.table.get? g.object = some group
  target : ∀ target ∈ s.targets, s.shared.table.get? target.1 = some target.2
  owner : ∀ r group f, .turned r group f ∈ history →
    ∃ g : Group W, s.shared.groups[group]? = some g ∧ g.object = r
  order : ∀ r, ∃ gone, appends r history = gone ++ s.shared.lane r ∧
    (starts r history).Sublist gone

namespace Lanes

variable {history : List Event} {s s' : State W} {e : Event}

/-- The lane of the group that the table has for a receiver, after a change of one group. -/
theorem lane_modify (lanes : Lanes history s) {group : GroupId} {g : Group W}
    {change : Group W → Group W} (found : s.shared.groups[group]? = some g)
    (listed : s.shared.table.get? g.object = some group)
    (table : s'.shared.table = s.shared.table)
    (groups : s'.shared.groups = s.shared.groups.modify group change) (r : ObjectId) :
    s'.shared.lane r =
      if r = g.object then (change g).jobs.map Job.future else s.shared.lane r := by
  by_cases same : r = g.object
  · subst same
    rw [if_pos rfl]
    refine Shared.lane_eq (table ▸ listed) ?_
    rw [groups, List.getElem?_modify, found]
    simp
  · rw [if_neg same]
    unfold Shared.lane
    rw [table, groups]
    cases own : s.shared.table.get? r with
    | none => rfl
    | some other =>
      have different : group ≠ other := by
        rintro rfl
        obtain ⟨g', found', object⟩ := lanes.object r group own
        rw [found] at found'
        cases found'
        exact same object.symm
      dsimp only
      rw [List.getElem?_modify_ne change s.shared.groups different]

/-- A change of one group that leaves its receiver alone. -/
theorem modify (lanes : Lanes history s) {group : GroupId} {change : Group W → Group W}
    (table : s'.shared.table = s.shared.table)
    (groups : s'.shared.groups = s.shared.groups.modify group change)
    (object : ∀ g, (change g).object = g.object)
    (token : ∀ other, weigh (Stake.tokens other) s'.stakes = (s'.shared.isTaken other).toNat)
    (free : ∀ g, s.shared.groups[group]? = some g → (change g).taken = false →
      (change g).jobs = [])
    (listed : ∀ g, s.shared.groups[group]? = some g → (change g).taken = true →
      s.shared.table.get? g.object = some group)
    (targets : ∀ target ∈ s'.targets, target ∈ s.targets)
    (turns : ∀ r other f, e = .turned r other f →
      ∃ g : Group W, s.shared.groups[other]? = some g ∧ g.object = r)
    (order : ∀ r, ∃ gone, appends r (history ++ [e]) = gone ++ s'.shared.lane r ∧
      (starts r (history ++ [e])).Sublist gone) :
    Lanes (history ++ [e]) s' where
  keys := by rw [table]; exact lanes.keys
  object r other own := by
    rw [table] at own
    obtain ⟨g, found, eq⟩ := lanes.object r other own
    rw [groups, List.getElem?_modify, found]
    refine ⟨_, rfl, ?_⟩
    dsimp only
    split
    · rw [object, eq]
    · exact eq
  token := token
  free other g found untaken := by
    rw [groups, List.getElem?_modify] at found
    obtain ⟨g', before, rfl⟩ := Option.map_eq_some_iff.1 found
    split at untaken
    · rename_i same
      subst same
      rw [if_pos rfl]
      exact free g' before untaken
    · rename_i different
      rw [if_neg different]
      exact lanes.free other g' before untaken
  listed other g found taken := by
    rw [groups, List.getElem?_modify] at found
    rw [table]
    obtain ⟨g', before, rfl⟩ := Option.map_eq_some_iff.1 found
    split at taken
    · rename_i same
      subst same
      rw [if_pos rfl, object]
      exact listed g' before taken
    · rename_i different
      rw [if_neg different]
      exact lanes.listed other g' before taken
  target target mem := by
    rw [table]
    exact lanes.target target (targets target mem)
  owner r other f mem := by
    obtain ⟨g, found, eq⟩ : ∃ g : Group W, s.shared.groups[other]? = some g ∧ g.object = r := by
      rw [List.mem_append, List.mem_singleton] at mem
      rcases mem with earlier | now
      · exact lanes.owner r other f earlier
      · exact turns r other f now.symm
    rw [groups, List.getElem?_modify, found]
    refine ⟨_, rfl, ?_⟩
    dsimp only
    split
    · rw [object, eq]
    · exact eq
  order := order

theorem isTaken_modify {group : GroupId} {g : Group W} {change : Group W → Group W}
    (found : s.shared.groups[group]? = some g)
    (groups : s'.shared.groups = s.shared.groups.modify group change) (other : GroupId) :
    s'.shared.isTaken other =
      if other = group then (change g).taken else s.shared.isTaken other := by
  unfold Shared.isTaken
  rw [groups]
  by_cases same : other = group
  · subst same
    rw [List.getElem?_modify_eq, found, if_pos rfl]
    rfl
  · rw [List.getElem?_modify_ne change s.shared.groups (Ne.symm same), if_neg same]

theorem isTaken_eq {group : GroupId} {g : Group W} (found : s.shared.groups[group]? = some g) :
    s.shared.isTaken group = g.taken := by
  simp [Shared.isTaken, found]

/-- Whoever holds a token holds that of a group that is taken. -/
theorem taken_of_token (lanes : Lanes history s) {group : GroupId}
    (h : 0 < weigh (Stake.tokens group) s.stakes) :
    ∃ g, s.shared.groups[group]? = some g ∧ g.taken = true ∧
      s.shared.table.get? g.object = some group := by
  rw [lanes.token] at h
  unfold Shared.isTaken at h
  cases found : s.shared.groups[group]? with
  | none => simp [found] at h
  | some g =>
    cases taken : g.taken with
    | false => simp [found, taken] at h
    | true => exact ⟨g, rfl, taken, lanes.listed group g found taken⟩

variable (lanes : Lanes history s)
  (stakes : ∀ w, weigh w s'.stakes + weigh w e.gone = weigh w s.stakes + weigh w e.made)

include lanes stakes

theorem appended {r : ObjectId} {group : GroupId} {f : FutureId} {took : Bool}
    (event : e = .appended r group f took) {isAlive : ObjectId → Bool}
    (shifts : e.Shifts isAlive s.shared s'.shared) (target : s.shared.table.get? r = some group)
    (targets : ∀ target ∈ s'.targets, target ∈ s.targets) : Lanes (history ++ [e]) s' := by
  subst event
  obtain ⟨table, g, job, found, rfl, rfl, groups⟩ := shifts
  obtain ⟨g', found', object⟩ := lanes.object r group target
  rw [found] at found'
  cases found'
  refine lanes.modify table groups (fun _ => rfl) (fun other => ?_)
    (fun _ _ never => by cases never) (fun g' found' _ => ?_) targets (by simp) fun r' => ?_
  · have balance := stakes (Stake.tokens other)
    rw [isTaken_modify found groups]
    have before := lanes.token other
    by_cases same : other = group
    · subst same
      rw [isTaken_eq found] at before
      rw [if_pos rfl]
      cases taken : g.taken <;>
        simp [taken, Stake.tokens, Group.append] at before balance ⊢ <;> omega
    · have : one other group = 0 := one_of_ne (Ne.symm same)
      rw [if_neg same]
      cases taken : g.taken <;> simp [taken, Stake.tokens, this] at balance <;> omega
  · rw [found] at found'
    cases found'
    rw [object, target]
  · obtain ⟨gone, appends, starts⟩ := lanes.order r'
    refine ⟨gone, ?_, ?_⟩
    · rw [appends_append, appends, lanes.lane_modify found (object ▸ target) table groups r',
        object]
      by_cases same : r = r'
      · subst same
        rw [if_pos rfl, Shared.lane_eq target found]
        simp [Strands.appends, Group.append]
      · rw [if_neg (Ne.symm same)]
        simp [Strands.appends, same]
    · rw [starts_append]
      simpa [Strands.starts] using starts

theorem token_gone {group : GroupId} (gone : weigh (Stake.tokens group) e.gone = 1)
    (made : weigh (Stake.tokens group) e.made = 0) :
    ∃ g, s.shared.groups[group]? = some g ∧ g.taken = true ∧
      s.shared.table.get? g.object = some group := by
  refine lanes.taken_of_token ?_
  have balance := stakes (Stake.tokens group)
  omega

theorem drained {group : GroupId} {futures : List FutureId} (event : e = .drained group futures)
    {isAlive : ObjectId → Bool} (shifts : e.Shifts isAlive s.shared s'.shared)
    (targets : ∀ target ∈ s'.targets, target ∈ s.targets) : Lanes (history ++ [e]) s' := by
  subst event
  obtain ⟨table, groups, jobs⟩ := shifts
  have gone : ∀ other, weigh (Stake.tokens other) (Event.drained group futures).gone =
      one other group := fun other => by simp [Stake.tokens]
  have made : ∀ other, weigh (Stake.tokens other) (Event.drained group futures).made = 0 :=
    fun other => by simp [Stake.tokens]
  obtain ⟨g, found, taken, listed⟩ := lanes.token_gone stakes
    (by rw [gone, one_self]) (made group)
  obtain rfl := jobs g found
  refine lanes.modify table groups (fun _ => rfl) (fun other => ?_) (fun _ _ _ => rfl)
    (fun _ _ never => by cases never) targets (by simp) fun r => ?_
  · have balance := stakes (Stake.tokens other)
    have before := lanes.token other
    rw [isTaken_modify found groups]
    by_cases same : other = group
    · subst same
      rw [isTaken_eq found, taken] at before
      rw [gone, made, one_self] at balance
      rw [if_pos rfl]
      simp [Group.drain] at before ⊢
      omega
    · rw [gone, made, one_of_ne (Ne.symm same)] at balance
      rw [if_neg same]
      omega
  · obtain ⟨gone, appends, starts⟩ := lanes.order r
    rw [lanes.lane_modify found listed table groups r]
    by_cases same : r = g.object
    · subst same
      refine ⟨gone ++ g.jobs.map Job.future, ?_, ?_⟩
      · rw [appends_append, appends, if_pos rfl, Shared.lane_eq listed found]
        simp [Strands.appends, Group.drain]
      · rw [starts_append]
        simpa [Strands.starts] using starts.trans (List.sublist_append_left gone _)
    · refine ⟨gone, ?_, ?_⟩
      · rw [appends_append, appends, if_neg same]
        simp [Strands.appends]
      · rw [starts_append]
        simpa [Strands.starts] using starts

theorem turned {r : ObjectId} {group : GroupId} {f : FutureId} (event : e = .turned r group f)
    {isAlive : ObjectId → Bool} (shifts : e.Shifts isAlive s.shared s'.shared)
    (held : 0 < weigh (Stake.tokens group) s.stakes)
    (targets : ∀ target ∈ s'.targets, target ∈ s.targets) : Lanes (history ++ [e]) s' := by
  subst event
  obtain ⟨table, g, job, rest, found, rfl, jobs, rfl, groups⟩ := shifts
  obtain ⟨g', found', taken, listed⟩ := lanes.taken_of_token held
  rw [found] at found'
  cases found'
  refine lanes.modify table groups (fun _ => rfl) (fun other => ?_) (fun g' found' untaken => ?_)
    (fun g' found' _ => ?_) targets (fun r other f now => ?_) fun r => ?_
  · have balance := stakes (Stake.tokens other)
    have before := lanes.token other
    rw [isTaken_modify found groups]
    by_cases same : other = group
    · subst same
      rw [isTaken_eq found] at before
      rw [if_pos rfl]
      show _ = g.taken.toNat
      simp [Stake.tokens] at balance
      omega
    · rw [if_neg same]
      simp [Stake.tokens] at balance
      omega
  · rw [found] at found'
    cases found'
    rw [taken] at untaken
    cases untaken
  · rw [found] at found'
    cases found'
    exact listed
  · cases now
    exact ⟨g, found, rfl⟩
  · obtain ⟨gone, appends, starts⟩ := lanes.order r
    rw [lanes.lane_modify found listed table groups r]
    by_cases same : r = g.object
    · subst same
      refine ⟨gone ++ [job.future], ?_, ?_⟩
      · rw [appends_append, appends, if_pos rfl, Shared.lane_eq listed found]
        simp [Strands.appends, jobs]
      · rw [starts_append]
        simpa [Strands.starts] using starts
    · refine ⟨gone, ?_, ?_⟩
      · rw [appends_append, appends, if_neg same]
        simp [Strands.appends]
      · rw [starts_append]
        simpa [Strands.starts, Ne.symm same] using starts

theorem turnEnded {group : GroupId} (event : e = .turnEnded group)
    {isAlive : ObjectId → Bool} (shifts : e.Shifts isAlive s.shared s'.shared)
    (targets : ∀ target ∈ s'.targets, target ∈ s.targets) : Lanes (history ++ [e]) s' := by
  subst event
  obtain ⟨table, none, groups⟩ := shifts
  obtain ⟨g, found, taken, listed⟩ := lanes.token_gone stakes
    (show weigh (Stake.tokens group) [.token group] = 1 by simp [Stake.tokens]) rfl
  refine lanes.modify table groups (fun _ => rfl) (fun other => ?_)
    (fun g' found' _ => none g' found') (fun _ _ never => by cases never) targets (by simp) fun r => ?_
  · have balance := stakes (Stake.tokens other)
    have before := lanes.token other
    rw [isTaken_modify found groups]
    by_cases same : other = group
    · subst same
      rw [isTaken_eq found, taken] at before
      rw [if_pos rfl]
      simp [Stake.tokens] at before balance ⊢
      omega
    · have : one other group = 0 := one_of_ne (Ne.symm same)
      rw [if_neg same]
      simp [Stake.tokens, this] at balance
      omega
  · obtain ⟨gone, appends, starts⟩ := lanes.order r
    refine ⟨gone, ?_, ?_⟩
    · rw [appends_append, appends, lanes.lane_modify found listed table groups r]
      by_cases same : r = g.object
      · subst same
        rw [if_pos rfl, Shared.lane_eq listed found]
        simp [Strands.appends]
      · rw [if_neg same]
        simp [Strands.appends]
    · rw [starts_append]
      simpa [Strands.starts] using starts

omit stakes in
/-- A sweep drops no jobs: where nothing is listed any more, nothing waited. -/
theorem lane_sweep {table : GroupTable} {isAlive : ObjectId → Bool}
    (old : ∀ r group, table.get? r = some group → s.shared.table.get? r = some group)
    (spared : ∀ r group, s.shared.table.get? r = some group →
      s.shared.keeps isAlive r group = true → table.get? r = some group) (r : ObjectId) :
    Shared.lane { s.shared with table } r = s.shared.lane r := by
  cases own : s.shared.table.get? r with
  | none =>
    have none : table.get? r = none := by
      cases after : table.get? r with
      | none => rfl
      | some group =>
        rw [old r group after] at own
        cases own
    simp [Shared.lane, own, none]
  | some group =>
    obtain ⟨g, found, _⟩ := lanes.object r group own
    rw [Shared.lane_eq own found]
    cases after : table.get? r with
    | some group' =>
      have same := old r group' after
      rw [own] at same
      cases same
      exact Shared.lane_eq (s := { s.shared with table }) after found
    | none =>
      -- What the sweep dropped is idle, so that nothing waits in it.
      have dropped : s.shared.keeps isAlive r group = false := by
        cases kept : s.shared.keeps isAlive r group with
        | false => rfl
        | true =>
          rw [spared r group own kept] at after
          cases after
      have idle : g.isIdle = true := by
        have := (Bool.or_eq_false_iff.1 dropped).2
        simpa [Shared.isIdle, found] using this
      have jobs : g.jobs = [] := by
        simp [Group.isIdle] at idle
        exact idle.2
      simp [Shared.lane, after, jobs]

omit stakes in
/-- A sweep spares what is taken and what is about to be used. -/
theorem sweep {table : GroupTable} {isAlive : ObjectId → Bool}
    (alive : ∀ target ∈ s.targets, isAlive target.1 = true)
    (keys : (table.entries.map Prod.fst).Nodup)
    (old : ∀ r group, table.get? r = some group → s.shared.table.get? r = some group)
    (spared : ∀ r group, s.shared.table.get? r = some group →
      s.shared.keeps isAlive r group = true → table.get? r = some group) :
    Lanes history { s with shared := { s.shared with table } } where
  keys := keys
  object r group own := lanes.object r group (old r group own)
  token := lanes.token
  free := lanes.free
  listed group g found taken := by
    refine spared _ _ (lanes.listed group g found taken) ?_
    have busy : s.shared.isIdle group = false := by
      simp [Shared.isIdle, found, Group.isIdle, taken]
    simp [Shared.keeps, busy]
  target target mem := by
    refine spared _ _ (lanes.target target mem) ?_
    simp [Shared.keeps, alive target mem]
  owner := lanes.owner
  order r := by
    obtain ⟨gone, appends, starts⟩ := lanes.order r
    refine ⟨gone, ?_, starts⟩
    rw [appends]
    exact congrArg (gone ++ ·) (lanes.lane_sweep old spared r).symm

omit stakes in
theorem same (table : s'.shared.table = s.shared.table)
    (groups : s'.shared.groups = s.shared.groups)
    (tokens : ∀ group, weigh (Stake.tokens group) s'.stakes = weigh (Stake.tokens group) s.stakes)
    (targets : ∀ target ∈ s'.targets, target ∈ s.targets ∨
      s.shared.table.get? target.1 = some target.2)
    (appends : ∀ r, Strands.appends r [e] = []) (starts : ∀ r, Strands.starts r [e] = []) :
    Lanes (history ++ [e]) s' where
  owner r group f mem := by
    rw [List.mem_append, List.mem_singleton] at mem
    rw [groups]
    rcases mem with earlier | now
    · exact lanes.owner r group f earlier
    · have none := starts r
      rw [← now] at none
      simp [Strands.starts] at none
  keys := by rw [table]; exact lanes.keys
  object := by rw [table, groups]; exact lanes.object
  token group := by
    rw [tokens, lanes.token]
    unfold Shared.isTaken
    rw [groups]
  free := by rw [groups]; exact lanes.free
  listed := by rw [table, groups]; exact lanes.listed
  target target mem := by
    rw [table]
    rcases targets target mem with earlier | listed
    · exact lanes.target target earlier
    · exact listed
  order r := by
    obtain ⟨gone, a, b⟩ := lanes.order r
    refine ⟨gone, ?_, ?_⟩
    · rw [appends_append, appends, a, List.append_nil]
      unfold Shared.lane
      rw [table, groups]
    · rwa [starts_append, starts, List.append_nil]

omit stakes in
theorem lane_insert {r : ObjectId} (none : s.shared.table.get? r = none)
    (table : s'.shared.table = s.shared.table.insert r s.shared.groups.length)
    (groups : s'.shared.groups = s.shared.groups ++ [{ object := r }]) (r' : ObjectId) :
    s'.shared.lane r' = s.shared.lane r' := by
  unfold Shared.lane
  rw [table, groups, GroupTable.get?_insert none]
  by_cases same : r' = r
  · subst same
    rw [none, if_pos rfl]
    simp
  · rw [if_neg same]
    cases own : s.shared.table.get? r' with
    | none => rfl
    | some group =>
      obtain ⟨g, found, _⟩ := lanes.object r' group own
      obtain ⟨bound, _⟩ := List.getElem?_eq_some_iff.1 found
      dsimp only
      rw [List.getElem?_append_left bound]

omit stakes in
/-- A receiver without a group gets a new one. -/
theorem insert {r : ObjectId} (none : s.shared.table.get? r = none)
    (table : s'.shared.table = s.shared.table.insert r s.shared.groups.length)
    (groups : s'.shared.groups = s.shared.groups ++ [{ object := r }])
    (tokens : ∀ group, weigh (Stake.tokens group) s'.stakes = weigh (Stake.tokens group) s.stakes)
    (targets : ∀ target ∈ s'.targets, target ∈ s.targets ∨ target = (r, s.shared.groups.length))
    (event : e = .located r) : Lanes (history ++ [e]) s' where
  keys := by
    rw [table]
    exact GroupTable.nodup_insert lanes.keys none _
  object r' group own := by
    rw [table, GroupTable.get?_insert none] at own
    split at own
    · cases own
      rename_i same
      exact ⟨{ object := r }, by rw [groups]; simp, same.symm⟩
    · obtain ⟨g, found, eq⟩ := lanes.object r' group own
      refine ⟨g, ?_, eq⟩
      obtain ⟨bound, _⟩ := List.getElem?_eq_some_iff.1 found
      rw [groups, List.getElem?_append_left bound, found]
  token group := by
    rw [tokens, lanes.token]
    unfold Shared.isTaken
    rw [groups]
    rcases Nat.lt_trichotomy group s.shared.groups.length with lt | rfl | gt
    · rw [List.getElem?_append_left lt]
    · simp
    · rw [List.getElem?_eq_none (by omega), List.getElem?_eq_none (by simp; omega)]
  free group g found untaken := by
    rw [groups, List.getElem?_append] at found
    split at found
    · exact lanes.free group g found untaken
    · rw [List.getElem?_singleton] at found
      split at found <;> cases found
      rfl
  listed group g found taken := by
    rw [groups, List.getElem?_append] at found
    split at found
    · have before := lanes.listed group g found taken
      rw [table, GroupTable.get?_insert none, if_neg]
      · exact before
      · intro same
        rw [same, none] at before
        cases before
    · rw [List.getElem?_singleton] at found
      split at found <;> cases found
      cases taken
  target target mem := by
    rw [table, GroupTable.get?_insert none]
    rcases targets target mem with earlier | rfl
    · have before := lanes.target target earlier
      rw [if_neg]
      · exact before
      · intro same
        rw [same, none] at before
        cases before
    · rw [if_pos rfl]
  owner r' group f mem := by
    subst event
    obtain ⟨g, found, eq⟩ := lanes.owner r' group f (by simpa using mem)
    obtain ⟨bound, _⟩ := List.getElem?_eq_some_iff.1 found
    refine ⟨g, ?_, eq⟩
    rw [groups, List.getElem?_append_left bound, found]
  order r' := by
    subst event
    obtain ⟨gone, appends, starts⟩ := lanes.order r'
    refine ⟨gone, ?_, ?_⟩
    · have last : Strands.appends r' [.located r] = [] := rfl
      rw [appends_append, last, appends, List.append_nil, lanes.lane_insert none table groups]
    · have last : Strands.starts r' [.located r] = [] := rfl
      rwa [starts_append, last, List.append_nil]

omit stakes in
/-- A receiver's group is found, or made after a sweep if the table is full. -/
theorem located {receiver : ObjectId}
    (shifts : (Event.located receiver).Shifts s.isAlive s.shared s'.shared)
    (tokens : ∀ group, weigh (Stake.tokens group) s'.stakes = weigh (Stake.tokens group) s.stakes)
    (alive : ∀ target ∈ s.targets, s.isAlive target.1 = true)
    (targets : ∀ target ∈ s'.targets, target ∈ s.targets ∨
      target = (receiver, (s.shared.locate s.isAlive receiver).1)) :
    Lanes (history ++ [.located receiver]) s' := by
  obtain ⟨groups, table⟩ := shifts
  cases own : s.shared.table.get? receiver with
  | some group =>
    simp only [Shared.locate, own] at groups table targets
    refine lanes.same table groups tokens (fun target mem => ?_) (fun _ => rfl) (fun _ => rfl)
    rcases targets target mem with earlier | rfl
    · exact .inl earlier
    · exact .inr own
  | none =>
    simp only [Shared.locate, own] at groups table targets
    have swept := lanes.sweep alive
      (GroupTable.nodup_sweepIfFull lanes.keys (s.shared.keeps s.isAlive))
      (fun r group => GroupTable.get?_of_sweepIfFull lanes.keys _)
      (fun r group own kept => GroupTable.get?_sweepIfFull lanes.keys _ own kept)
    have none := GroupTable.get?_sweepIfFull_of_none lanes.keys (s.shared.keeps s.isAlive) own
    exact swept.insert none table groups tokens targets rfl

end Lanes

/-! ## Along every trace -/

namespace State

/-- What a step does to lanes, and which lanes threads are about to use after it. -/
theorem step_shift {client : Client W} {s s' : State W} {thread : ThreadId} {choice : Choice}
    (h : s.step client thread choice = some s') :
    (s.event client thread).Shifts s.isAlive s.shared s'.shared ∧
      ∀ target ∈ s'.targets, target ∈ s.targets ∨ ∃ receiver,
        s.event client thread = .located receiver ∧
          target = (receiver, (s.shared.locate s.isAlive receiver).1) := by
  obtain ⟨acted⟩ := step_cases h
  have shift := acted.move.shift acted.actor.worker acted.below
  rw [← acted.event] at shift
  refine ⟨by rw [acted.shared']; exact shift.shared, fun target mem => ?_⟩
  have spawned : ∀ code : Code W, Strands.targets (clientThread code).stack = [] := fun _ => rfl
  unfold targets at mem ⊢
  rw [acted.threads'] at mem
  rw [acted.threads]
  simp only [List.flatMap_append, List.flatMap_cons, List.flatMap_map, spawned, acted.stack,
    targets_append, List.mem_append] at mem ⊢
  rcases mem with (before | (here | below) | after) | spawned
  · exact .inl (.inl before)
  · exact .inr (shift.targets target here)
  · exact .inl (.inr (.inl (.inr below)))
  · exact .inl (.inr (.inr after))
  · simp at spawned

theorem step_lines {client : Client W} {s s' : State W} {thread : ThreadId} {choice : Choice}
    (h : s.step client thread choice = some s') :
    (s.event client thread).Lines s.shared s'.shared := by
  obtain ⟨acted⟩ := step_cases h
  rw [acted.event, acted.shared']
  exact (acted.move.shift acted.actor.worker acted.below).line

theorem step_grips {client : Client W} {s s' : State W} {thread : ThreadId} {choice : Choice}
    (h : s.step client thread choice = some s') :
    (s.event client thread).Grips s.shared s'.shared := by
  obtain ⟨acted⟩ := step_cases h
  rw [acted.event, acted.shared']
  exact (acted.move.shift acted.actor.worker acted.below).grips

theorem isAlive_of_target {s : State W} {target : ObjectId × GroupId} (h : target ∈ s.targets) :
    s.isAlive target.1 = true := by
  obtain ⟨t, mem, held⟩ := List.mem_flatMap.1 h
  obtain ⟨frame, inStack, eq⟩ := List.mem_filterMap.1 held
  cases frame with
  | append receiver group job asker =>
    cases eq
    unfold isAlive holdings
    rw [Bool.or_eq_true, List.any_eq_true]
    refine .inl ⟨(Frame.append receiver group job asker).held, ?_, ?_⟩
    · exact List.mem_append_right _ (List.mem_flatMap.2 ⟨t, mem, List.mem_map_of_mem inStack⟩)
    · rw [List.contains_iff_mem]
      exact List.mem_append_left _ (List.mem_singleton.2 rfl)
  | _ => cases eq

theorem mem_targets {s : State W} {history : List Event} {receiver : ObjectId} {group : GroupId}
    {job : Job W} {asker : Asker} (place : Place history s (.append receiver group job asker)) :
    (receiver, group) ∈ s.targets := by
  refine List.mem_flatMap.2 ⟨place.thread, place.mem, ?_⟩
  rw [place.stack]
  exact List.mem_filterMap.2 ⟨.append receiver group job asker, by simp, rfl⟩

theorem lanes_step {history : List Event} {s s' : State W} {e : Event} (lanes : Lanes history s)
    (stakes : ∀ w, weigh w s'.stakes + weigh w e.gone = weigh w s.stakes + weigh w e.made)
    (shifts : e.Shifts s.isAlive s.shared s'.shared)
    (targets : ∀ target ∈ s'.targets, target ∈ s.targets ∨ ∃ receiver,
      e = .located receiver ∧ target = (receiver, (s.shared.locate s.isAlive receiver).1))
    {frame : Frame W} {t : Thread W} (mem : t ∈ s.threads) (inStack : frame ∈ t.stack)
    {worker : Bool} {below : List (Frame W)} (has : frame.Has worker s.shared below e) :
    Lanes (history ++ [e]) s' := by
  have alive : ∀ target ∈ s.targets, s.isAlive target.1 = true := fun _ => isAlive_of_target
  -- A step that finds no receiver's group leaves no more targets.
  have fewer : (∀ receiver, e ≠ .located receiver) → ∀ target ∈ s'.targets, target ∈ s.targets := by
    intro other target mem
    rcases targets target mem with earlier | ⟨receiver, located, _⟩
    · exact earlier
    · exact absurd located (other receiver)
  cases e with
  | appended receiver group f took =>
    have target : (receiver, group) ∈ s.targets := by
      cases has with
      | appended => exact List.mem_flatMap.2 ⟨t, mem, List.mem_filterMap.2 ⟨_, inStack, rfl⟩⟩
      | managed managed | placed managed _ => cases managed
    exact lanes.appended stakes rfl shifts (lanes.target _ target) (fewer (by simp))
  | drained group futures => exact lanes.drained stakes rfl shifts (fewer (by simp))
  | turned receiver group f =>
    have token : Stake.token group ∈ frame.stakes := by
      cases has with
      | turned => exact List.mem_singleton.2 rfl
      | managed managed | placed managed _ => cases managed
    have held := weigh_pos_of_mem (w := Stake.tokens group)
      (stakes_of_mem mem inStack token) (one_self group)
    exact lanes.turned stakes rfl shifts held (fewer (by simp))
  | turnEnded group => exact lanes.turnEnded stakes rfl shifts (fewer (by simp))
  | swept =>
    have swept := lanes.sweep alive
      (GroupTable.nodup_sweep lanes.keys (s.shared.keeps s.isAlive))
      (fun r group own => ((GroupTable.get?_sweep lanes.keys _).1 own).1)
      (fun r group own kept => (GroupTable.get?_sweep lanes.keys _).2 ⟨own, kept⟩)
    have tokens : ∀ group, weigh (Stake.tokens group) s'.stakes =
        weigh (Stake.tokens group) s.stakes := fun group => by
      simpa using stakes (Stake.tokens group)
    exact swept.same shifts.2 shifts.1 tokens
      (fun target mem => .inl (fewer (by simp) target mem)) (fun _ => rfl) (fun _ => rfl)
  | located receiver =>
    have tokens : ∀ group, weigh (Stake.tokens group) s'.stakes =
        weigh (Stake.tokens group) s.stakes := fun group => by
      simpa using stakes (Stake.tokens group)
    refine lanes.located shifts tokens alive fun target mem => ?_
    rcases targets target mem with earlier | ⟨_, same, eq⟩
    · exact .inl earlier
    · cases same
      exact .inr eq
  | opened f fault behalf =>
    refine lanes.same shifts.2 shifts.1 (fun group => ?_)
      (fun target mem => .inl (fewer (by simp) target mem)) (fun _ => rfl) (fun _ => rfl)
    have balance := stakes (Stake.tokens group)
    cases fault <;> simpa [Stake.tokens] using balance
  | notified f outcome failing =>
    refine lanes.same shifts.2 shifts.1 (fun group => ?_)
      (fun target mem => .inl (fewer (by simp) target mem)) (fun _ => rfl) (fun _ => rfl)
    have balance := stakes (Stake.tokens group)
    cases failing <;> simpa [Stake.tokens] using balance
  | _ =>
    refine lanes.same shifts.2 shifts.1 (fun group => ?_)
      (fun target mem => .inl (fewer (by simp) target mem)) (fun _ => rfl) (fun _ => rfl)
    have balance := stakes (Stake.tokens group)
    simpa [Stake.tokens] using balance

theorem step_lanes {client : Client W} {history : List Event} {s s' : State W}
    {thread : ThreadId} {choice : Choice} (lanes : Lanes history s)
    (taken : s.step client thread choice = some s') :
    Lanes (history ++ [s.event client thread]) s' := by
  obtain ⟨acted⟩ := step_cases taken
  obtain ⟨shifts, targets⟩ := step_shift taken
  obtain ⟨frame, above, top, has⟩ := acted.move.has_event acted.actor.worker acted.below
  rw [← acted.event] at has
  have inStack : frame ∈ acted.actor.stack := by rw [acted.stack, top]; simp
  exact lanes_step lanes (step_accounts taken).stakes shifts targets acted.actor_mem inStack has

namespace Trace

variable {client : Client W} {workers : Nat} {world : W} {kept : List ObjectId}
  {threads : List (Code W)} {s : State W} {history : List Event}

theorem lanes_start :
    Lanes [] (State.start workers world kept threads) where
  keys := List.nodup_nil
  object r group own := by cases own
  token group := by
    rw [stakes_start]
    rfl
  free group g found := by cases found
  listed group g found := by cases found
  target target mem := by
    obtain ⟨t, mem, held⟩ := List.mem_flatMap.1 mem
    rcases List.mem_append.1 mem with worker | ofClient
    · rw [(List.mem_replicate.1 worker).2] at held
      cases held
    · obtain ⟨code, _, rfl⟩ := List.mem_map.1 ofClient
      cases held
  owner r group f mem := by cases mem
  order r := ⟨[], rfl, .slnil⟩

/-- What is known of lanes holds along every trace. -/
theorem lanes (trace : Trace client (State.start workers world kept threads) history s) :
    Lanes history s := by
  refine trace.keeps (fun history s => Lanes history s) lanes_start ?_
  intro before e moment lanes
  have after := step_lanes lanes moment.taken
  rwa [moment.event] at after

theorem not_stranded (trace : Trace client (State.start workers world kept threads) history s)
    (f : FutureId) : .stranded f ∉ history := fun mem => by
  obtain ⟨before, after, rfl⟩ := List.append_of_mem mem
  obtain ⟨moment, frame, place, receiver, group, job, asker, rfl, none⟩ := trace.sound
  have lanes := moment.trace.lanes
  obtain ⟨g, found, _⟩ := lanes.object receiver group (lanes.target _ (mem_targets place))
  rw [none] at found
  cases found

theorem queued_of_line (trace : Trace client (State.start workers world kept threads) history s) :
    ∀ f ∈ s.shared.line, .queued f ∈ history := by
  refine trace.keeps (fun history s => ∀ f ∈ s.shared.line, .queued f ∈ history)
    (fun _ mem => by cases mem) ?_
  intro before e moment ih f mem
  have lines := step_lines moment.taken
  rw [moment.event] at lines
  rw [List.mem_append, List.mem_singleton]
  cases e with
  | queued g =>
    rw [show moment.s'.shared.line = _ from lines, List.mem_append, List.mem_singleton] at mem
    rcases mem with earlier | rfl
    · exact .inl (ih f earlier)
    · exact .inr rfl
  | started g =>
    refine .inl (ih f ?_)
    rw [show moment.s.shared.line = _ from lines]
    exact List.mem_cons_of_mem g mem
  | closed futures =>
    rw [show moment.s'.shared.line = [] from lines.2] at mem
    cases mem
  | _ =>
    have same : moment.s'.shared.line = moment.s.shared.line := lines
    exact .inl (ih f (same ▸ mem))

theorem queued_of_started
    (trace : Trace client (State.start workers world kept threads) history s) {f : FutureId}
    (started : .started f ∈ history) : .queued f ∈ history := by
  obtain ⟨before, after, rfl⟩ := List.append_of_mem started
  obtain ⟨moment⟩ := trace.split
  have lines := step_lines moment.taken
  rw [moment.event] at lines
  refine List.mem_append_left _ (moment.trace.queued_of_line f ?_)
  rw [show moment.s.shared.line = _ from lines]
  exact List.mem_cons_self

end Trace
end State
end Strands
