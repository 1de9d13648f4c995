/-
Groups by their receivers.

Sweeps make the numbers of groups a matter of chance: a receiver whose group was dropped is
given a new one.  What counts is a receiver's `bench`, the group that its next job goes to.
It is the same before and after a sweep, since what a sweep drops is idle and an idle group
is like a new one (`Lanes.bench_sweep`).  Finding a group leaves all benches alone
(`Lanes.bench_locate`), and a change of a busy group changes one bench and no other
(`Lanes.bench_modify`).
-/
import Strands.Proofs.Sweeps

namespace Strands

variable {W : Type}

namespace Shared

variable {s : Shared W} {r : ObjectId} {group : GroupId} {g : Group W}

def owner (s : Shared W) (group : GroupId) : Option ObjectId :=
  (s.groups[group]?).map Group.object

/-- The group that a receiver's next job goes to: the one that the table has for it, or else
a new one. -/
def bench (s : Shared W) (r : ObjectId) : Group W :=
  ((s.table.get? r).bind (s.groups[·]?)).getD { object := r }

theorem bench_of_listed (listed : s.table.get? r = some group)
    (found : s.groups[group]? = some g) : s.bench r = g := by
  simp [bench, listed, found]

theorem bench_of_none (none : s.table.get? r = none) : s.bench r = { object := r } := by
  simp [bench, none]

theorem lane_eq_bench (s : Shared W) (r : ObjectId) :
    s.lane r = (s.bench r).jobs.map Job.future := by
  unfold lane bench
  cases s.table.get? r with
  | none => rfl
  | some group => cases found : s.groups[group]? <;> simp [found]

theorem owner_of_found (found : s.groups[group]? = some g) : s.owner group = some g.object := by
  simp [owner, found]

theorem owner_modify {change : Group W → Group W} (kept : ∀ g, (change g).object = g.object)
    (group other : GroupId) : (s.modifyGroup group change).owner other = s.owner other := by
  unfold owner modifyGroup
  rw [List.getElem?_modify]
  cases s.groups[other]? with
  | none => rfl
  | some g =>
    by_cases same : group = other <;> simp [same, kept]

theorem bench_insert (none : s.table.get? r = none)
    (bound : ∀ r group, s.table.get? r = some group → group < s.groups.length) (r' : ObjectId) :
    Shared.bench { s with
      groups := s.groups ++ [{ object := r }]
      table := s.table.insert r s.groups.length } r' = s.bench r' := by
  have entry := GroupTable.get?_insert none s.groups.length r'
  by_cases same : r' = r
  · subst same
    rw [if_pos rfl] at entry
    rw [bench_of_none none]
    exact bench_of_listed entry (by simp)
  · rw [if_neg same] at entry
    cases listed : s.table.get? r' with
    | none =>
      rw [bench_of_none listed]
      exact bench_of_none (entry.trans listed)
    | some group =>
      have found := List.getElem?_eq_getElem (bound r' group listed)
      rw [bench_of_listed listed found]
      refine bench_of_listed (entry.trans listed) ?_
      exact (List.getElem?_append_left (bound r' group listed)).trans found

theorem owner_locate (isAlive : ObjectId → Bool) (r' : ObjectId)
    (own : s.owner group = some r) : (s.locate isAlive r').2.owner group = some r := by
  unfold locate
  split
  · exact own
  · obtain ⟨g, found, eq⟩ := Option.map_eq_some_iff.1 own
    obtain ⟨bound, _⟩ := List.getElem?_eq_some_iff.1 found
    simp only [owner]
    rw [List.getElem?_append_left bound, found]
    exact congrArg some eq

end Shared

namespace Lanes

variable {history : List Event} {s : State W} {r : ObjectId} {group : GroupId} {g : Group W}

theorem owner_of_listed (lanes : Lanes history s) (listed : s.shared.table.get? r = some group) :
    s.shared.owner group = some r := by
  obtain ⟨g, found, rfl⟩ := lanes.object r group listed
  exact Shared.owner_of_found found

theorem owner_locate_self (lanes : Lanes history s) (isAlive : ObjectId → Bool) (r : ObjectId) :
    (s.shared.locate isAlive r).2.owner (s.shared.locate isAlive r).1 = some r := by
  unfold Shared.locate
  split
  · exact lanes.owner_of_listed ‹_›
  · simp [Shared.owner]

/-- A change of a group that the table has changes the bench of its receiver and no other. -/
theorem bench_modify (lanes : Lanes history s) (found : s.shared.groups[group]? = some g)
    (listed : s.shared.table.get? g.object = some group) (change : Group W → Group W)
    (r : ObjectId) :
    (s.shared.modifyGroup group change).bench r =
      if r = g.object then change g else s.shared.bench r := by
  have modified : (s.shared.groups.modify group change)[group]? = some (change g) := by
    rw [List.getElem?_modify_eq, found]
    rfl
  by_cases same : r = g.object
  · rw [if_pos same]
    exact Shared.bench_of_listed (same ▸ listed) modified
  · rw [if_neg same]
    cases own : s.shared.table.get? r with
    | none =>
      rw [Shared.bench_of_none own]
      exact Shared.bench_of_none own
    | some other =>
      obtain ⟨h, found', object⟩ := lanes.object r other own
      have different : group ≠ other := by
        rintro rfl
        rw [found] at found'
        cases found'
        exact same object.symm
      rw [Shared.bench_of_listed own found']
      refine Shared.bench_of_listed own ?_
      exact (List.getElem?_modify_ne change s.shared.groups different).trans found'

/-- Dropping entries whose groups are idle leaves all benches alone. -/
theorem bench_sweep (lanes : Lanes history s) {table : GroupTable} {isAlive : ObjectId → Bool}
    (old : ∀ r group, table.get? r = some group → s.shared.table.get? r = some group)
    (spared : ∀ r group, s.shared.table.get? r = some group →
      s.shared.keeps isAlive r group = true → table.get? r = some group) (r : ObjectId) :
    Shared.bench { s.shared with table } r = s.shared.bench r := by
  cases after : table.get? r with
  | some group =>
    obtain ⟨g, found, _⟩ := lanes.object r group (old r group after)
    rw [Shared.bench_of_listed (old r group after) found]
    exact Shared.bench_of_listed after found
  | none =>
    rw [show Shared.bench { s.shared with table } r = _ from Shared.bench_of_none after]
    cases before : s.shared.table.get? r with
    | none => exact (Shared.bench_of_none before).symm
    | some group =>
      obtain ⟨g, found, rfl⟩ := lanes.object r group before
      -- The group was dropped, so it is idle, and so like a new one.
      have idle : s.shared.isIdle group = true := by
        cases busy : s.shared.isIdle group with
        | true => rfl
        | false =>
          rw [spared _ group before (by simp [Shared.keeps, busy])] at after
          cases after
      rw [Shared.bench_of_listed before found]
      obtain ⟨object, jobs, taken⟩ := g
      simp only [Shared.isIdle, found, Group.isIdle, Bool.and_eq_true, Bool.not_eq_true',
        List.isEmpty_iff] at idle
      obtain ⟨rfl, rfl⟩ := idle
      rfl

theorem bench_swept (lanes : Lanes history s) (isAlive : ObjectId → Bool) (r : ObjectId) :
    (s.shared.sweep isAlive).bench r = s.shared.bench r :=
  lanes.bench_sweep (fun _ _ own => ((GroupTable.get?_sweep lanes.keys _).1 own).1)
    (fun _ _ own kept => (GroupTable.get?_sweep lanes.keys _).2 ⟨own, kept⟩) r

theorem bench_locate (lanes : Lanes history s) (isAlive : ObjectId → Bool) (r r' : ObjectId) :
    (s.shared.locate isAlive r).2.bench r' = s.shared.bench r' := by
  unfold Shared.locate
  split
  · rfl
  · rename_i own
    have swept : Shared.bench { s.shared with
        table := s.shared.table.sweepIfFull (s.shared.keeps isAlive) } r' = s.shared.bench r' :=
      lanes.bench_sweep (fun r group => GroupTable.get?_of_sweepIfFull lanes.keys _)
      (fun r group own kept => GroupTable.get?_sweepIfFull lanes.keys _ own kept) r'
    rw [← swept]
    refine Shared.bench_insert (s := { s.shared with table := _ })
      (GroupTable.get?_sweepIfFull_of_none lanes.keys _ own) (fun r group listed => ?_) r'
    obtain ⟨g, found, _⟩ := lanes.object r group
      (GroupTable.get?_of_sweepIfFull lanes.keys _ listed)
    exact (List.getElem?_eq_some_iff.1 found).1

/-- The jobs on lanes are those on benches. -/
theorem mem_laneJobs (lanes : Lanes history s) {job : Job W} :
    job ∈ s.shared.laneJobs ↔ ∃ r, job ∈ (s.shared.bench r).jobs := by
  constructor
  · intro mem
    obtain ⟨g, isGroup, waiting⟩ := List.mem_flatMap.1 mem
    obtain ⟨group, found⟩ := List.mem_iff_getElem?.1 isGroup
    obtain ⟨h, found', listed⟩ :=
      lanes.listed_of_busy (.inl ⟨g, found, List.ne_nil_of_mem waiting⟩)
    rw [found] at found'
    cases found'
    exact ⟨g.object, by rwa [Shared.bench_of_listed listed found]⟩
  · rintro ⟨r, waiting⟩
    cases listed : s.shared.table.get? r with
    | none =>
      rw [Shared.bench_of_none listed] at waiting
      cases waiting
    | some group =>
      obtain ⟨g, found, _⟩ := lanes.object r group listed
      rw [Shared.bench_of_listed listed found] at waiting
      exact List.mem_flatMap.2 ⟨g, List.mem_of_getElem? found, waiting⟩

end Lanes
end Strands
