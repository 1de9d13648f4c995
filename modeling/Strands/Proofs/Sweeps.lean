/-
Runs in which the table of groups is swept at any time.

Finding a group sweeps a table that is full, and a client may ask for a sweep.  In a run
with sweeps the table is swept at other moments too, as often as one likes: each `Pulse` of
such a run is either a step of a thread or a sweep between two steps.  What is known of
lanes holds along these runs as well (`Sweeping.lanes`).  So a receiver that is held on to
keeps its group (`Sweeping.get?_of_isAlive`), and a group that anybody still has to do with
is the one that the table has for its receiver (`Lanes.listed_of_busy`).
-/
import Strands.Proofs.Apart
import Strands.Proofs.RunQueueSteps

namespace Strands

variable {W : Type}

/-! ## Runs with sweeps -/

/-- Whose turn it is: that of a thread, with what its environment decides, or that of a
sweep. -/
abbrev Turn := Option (ThreadId × Choice)

/-- One moment of a run with sweeps: the state, and whose turn it is. -/
structure Pulse (W : Type) where
  s : State W
  turn : Turn

def Pulse.event? (client : Client W) (pulse : Pulse W) : Option Event :=
  pulse.turn.map fun act => pulse.s.event client act.1

namespace State

def swept (s : State W) : State W := { s with shared := s.shared.sweep s.isAlive }

def take (client : Client W) (s : State W) : Turn → Option (State W)
  | some (thread, choice) => s.step client thread choice
  | none => some s.swept

/-- The pulses of steps and sweeps, in any order, and the state they lead to. -/
inductive Sweeping (client : Client W) (start : State W) : List (Pulse W) → State W → Prop
  | start : Sweeping client start [] start
  | next {log : List (Pulse W)} {s s' : State W} {turn : Turn} :
      Sweeping client start log s → s.take client turn = some s' →
      Sweeping client start (log ++ [⟨s, turn⟩]) s'

end State

/-! ## A receiver keeps its group -/

namespace GroupTable

variable {t : GroupTable} {keep : ObjectId → GroupId → Bool} {r : ObjectId} {group : GroupId}

theorem get?_insert_of_kept (keys : (t.entries.map Prod.fst).Nodup)
    (listed : t.get? r = some group) (kept : keep r group = true) {r' : ObjectId}
    (none : t.get? r' = none) (group' : GroupId) :
    ((t.sweepIfFull keep).insert r' group').get? r = some group := by
  have different : r ≠ r' := by
    rintro rfl
    rw [listed] at none
    cases none
  rw [get?_insert (get?_sweepIfFull_of_none keys keep none), if_neg different]
  exact get?_sweepIfFull keys keep listed kept

end GroupTable

/-- No event takes the entry of a receiver that is held on to from the table. -/
theorem Event.Shifts.get? {e : Event} {isAlive : ObjectId → Bool} {s s' : Shared W}
    {r : ObjectId} {group : GroupId} (shifts : e.Shifts isAlive s s')
    (keys : (s.table.entries.map Prod.fst).Nodup) (listed : s.table.get? r = some group)
    (alive : isAlive r = true) : s'.table.get? r = some group := by
  have kept : s.keeps isAlive r group = true := by simp [Shared.keeps, alive]
  cases e with
  | located receiver =>
    rw [shifts.2]
    unfold Shared.locate
    split
    · exact listed
    · exact GroupTable.get?_insert_of_kept keys listed kept ‹_› _
  | swept =>
    rw [shifts.2]
    exact (GroupTable.get?_sweep keys _).2 ⟨listed, kept⟩
  | appended receiver other f took | drained other futures | turned receiver other f
  | turnEnded other => rwa [shifts.1]
  | _ => rwa [shifts.2]

namespace State

variable {client : Client W} {s s' : State W} {turn : Turn} {history : List Event}

theorem lanes_swept (lanes : Lanes history s) : Lanes history s.swept :=
  lanes.sweep (fun _ => isAlive_of_target)
    (GroupTable.nodup_sweep lanes.keys (s.shared.keeps s.isAlive))
    (fun _ _ own => ((GroupTable.get?_sweep lanes.keys _).1 own).1)
    (fun _ _ own kept => (GroupTable.get?_sweep lanes.keys _).2 ⟨own, kept⟩)

theorem get?_of_take (lanes : Lanes history s) (taken : s.take client turn = some s')
    {r : ObjectId} {group : GroupId} (listed : s.shared.table.get? r = some group)
    (alive : s.isAlive r = true) : s'.shared.table.get? r = some group := by
  cases turn with
  | none =>
    cases taken
    refine (GroupTable.get?_sweep lanes.keys _).2 ⟨listed, ?_⟩
    simp [Shared.keeps, alive]
  | some act => exact (step_shift taken).1.get? lanes.keys listed alive

namespace Sweeping

variable {workers : Nat} {world : W} {kept : List ObjectId} {threads : List (Code W)}
  {log : List (Pulse W)}

/-- What is known of lanes holds along every run with sweeps. -/
theorem lanes (run : Sweeping client (State.start workers world kept threads) log s) :
    Lanes (log.filterMap (Pulse.event? client)) s := by
  induction run with
  | start => exact Trace.lanes_start
  | @next log s s' turn _ taken ih =>
    rw [List.filterMap_append]
    cases turn with
    | none =>
      cases taken
      exact (List.append_nil _).symm ▸ lanes_swept ih
    | some act => exact step_lanes ih taken

/-- A receiver has the same group for as long as it is held on to. -/
theorem get?_of_isAlive
    (run : Sweeping client (State.start workers world kept threads) log s)
    {before after : List (Pulse W)} {pulse : Pulse W} (split : log = before ++ pulse :: after)
    {r : ObjectId} {group : GroupId} (listed : pulse.s.shared.table.get? r = some group)
    (alive : ∀ later ∈ pulse :: after, later.s.isAlive r = true) :
    s.shared.table.get? r = some group := by
  induction run generalizing after with
  | start => simp at split
  | @next log s s' turn run taken ih =>
    rcases List.eq_nil_or_concat after with rfl | ⟨rest, last, rfl⟩
    · obtain ⟨_, same⟩ := List.append_inj' split rfl
      obtain rfl := (List.cons.inj same).1
      exact get?_of_take run.lanes taken listed (alive _ List.mem_cons_self)
    · have apart : log ++ [⟨s, turn⟩] = (before ++ pulse :: rest) ++ [last] := by
        rw [split, List.concat_eq_append, List.append_assoc, List.cons_append]
      obtain ⟨earlier, lasts⟩ := List.append_inj' apart rfl
      obtain rfl := (List.cons.inj lasts).1
      rw [List.concat_eq_append, ← List.cons_append, List.forall_mem_append] at alive
      exact get?_of_take run.lanes taken (ih earlier alive.1) (alive.2 _ List.mem_cons_self)

end Sweeping

/-! ## A busy group is the one in the table -/

/-- Whether anybody has to do with a group: a job waits in it, it is on the run queue, or a
frame has it in hand, to put a job on its lane, to put it on the queue, to refuse its jobs, to
take its turn or to end it. -/
def Busy (s : State W) (group : GroupId) : Prop :=
  (∃ g, s.shared.groups[group]? = some g ∧ g.jobs ≠ []) ∨
    group ∈ Item.groups s.shared.queue.items ∨
    ∃ t ∈ s.threads, ∃ frame ∈ t.stack, frame.group? = some group

end State

theorem Frame.target_or_token {frame : Frame W} {group : GroupId}
    (inHand : frame.group? = some group) :
    (∃ r, frame.target? = some (r, group)) ∨ Stake.token group ∈ frame.stakes := by
  cases frame with
  | append r g job asker =>
    cases inHand
    exact .inl ⟨r, rfl⟩
  | submit g asker | drain g | turn g | endTurn g =>
    cases inHand
    exact .inr (List.mem_singleton.2 rfl)
  | _ => cases inHand

namespace Lanes

variable {history : List Event} {s : State W} {group : GroupId}

theorem listed_of_token (lanes : Lanes history s) (held : Stake.token group ∈ s.stakes) :
    ∃ g, s.shared.groups[group]? = some g ∧ s.shared.table.get? g.object = some group := by
  have pos := weigh_pos_of_mem (w := Stake.tokens group) held (one_self group)
  obtain ⟨g, found, _, listed⟩ := lanes.taken_of_token pos
  exact ⟨g, found, listed⟩

/-- A group that anybody has to do with is the one that the table has for its receiver. -/
theorem listed_of_busy (lanes : Lanes history s) (busy : s.Busy group) :
    ∃ g, s.shared.groups[group]? = some g ∧ s.shared.table.get? g.object = some group := by
  rcases busy with ⟨g, found, waiting⟩ | queued | ⟨t, mem, frame, inStack, inHand⟩
  · refine ⟨g, found, lanes.listed group g found ?_⟩
    cases taken : g.taken with
    | true => rfl
    | false => exact absurd (lanes.free group g found taken) waiting
  · refine lanes.listed_of_token (List.mem_append_right _ ?_)
    obtain ⟨item, mem, named⟩ := List.mem_filterMap.1 queued
    refine List.mem_append_left _ (List.mem_append_left _ (List.mem_map.2 ⟨item, mem, ?_⟩))
    cases item with
    | job job => cases named
    | group g => cases named; rfl
  · rcases Frame.target_or_token inHand with ⟨r, target⟩ | token
    · have listed := lanes.target (r, group)
        (List.mem_flatMap.2 ⟨t, mem, List.mem_filterMap.2 ⟨frame, inStack, target⟩⟩)
      obtain ⟨g, found, rfl⟩ := lanes.object r group listed
      exact ⟨g, found, listed⟩
    · exact lanes.listed_of_token (State.stakes_of_mem mem inStack token)

end Lanes
end Strands
