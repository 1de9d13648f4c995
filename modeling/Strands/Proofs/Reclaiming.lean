/-
The table of groups is reclaimed exactly, and stays small.

`State.step_table` says what a step can do to the table: a sweep takes out the entries whose
receiver is gone and whose lane is idle, and no others, and nothing but a sweep takes any out.
The mark is set by sweeps only, to twice what they keep, but never below the first mark, and
the table is swept before it grows beyond it.  So along a run the table is never larger than
its mark says, and a sweep leaves room for as many new groups as it keeps entries, and for at
least half the first mark, before the table is full again: `Log.reclaims`.  A later sweep that a
client asks for may leave less room than the one before: `not_spaced_across_sweeps`.
-/
import Mathlib.Data.List.Induction
import Strands.Proofs.Lanes
import Strands.Proofs.Turns

namespace Strands

variable {W : Type}

/-! ## Sweeps and new groups -/

/-- Whether the receiver of an entry is gone and its lane idle. -/
def State.isSpent (s : State W) (entry : ObjectId × GroupId) : Bool :=
  !s.isAlive entry.1 && s.shared.isIdle entry.2

namespace Beat

variable (client : Client W) (beat : Beat W)

def made? : Option ObjectId :=
  match beat.event client with
  | .located receiver =>
    if (beat.s.shared.table.get? receiver).isNone then some receiver else none
  | _ => none

/-- Whether a step sweeps the table since a client asks for it. -/
def isAsked : Bool :=
  match beat.event client with
  | .swept => true
  | _ => false

/-- Whether a step sweeps the table since it is full and has to grow. -/
def isAutomatic : Bool :=
  (beat.made? client).isSome && decide (beat.s.shared.table.mark ≤ beat.s.shared.table.size)

/-- How many entries a step keeps that sweeps the table. -/
def kept? : Option Nat :=
  if beat.isAsked client || beat.isAutomatic client then
    some (beat.s.shared.table.entries.countP fun entry => !beat.s.isSpent entry)
  else none

end Beat

def made (client : Client W) (log : List (Beat W)) : Nat :=
  log.countP fun beat => (beat.made? client).isSome

/-- How many entries the latest sweep of a run kept. -/
def lastKept (client : Client W) (log : List (Beat W)) : Nat :=
  ((log.filterMap (Beat.kept? client)).getLast?).getD 0

/-- What a step does to the table and, as it sweeps the table or makes a group, to the groups. -/
inductive Tabled (client : Client W) (beat : Beat W) (s' : State W) : Prop
  | asked : beat.isAsked client = true → beat.made? client = none →
      s'.shared.table.entries =
        beat.s.shared.table.entries.filter (fun entry => !beat.s.isSpent entry) →
      s'.shared.table.mark = max (2 * s'.shared.table.size) firstMark →
      s'.shared.groups = beat.s.shared.groups → Tabled client beat s'
  | automatic (receiver : ObjectId) : beat.isAsked client = false →
      beat.made? client = some receiver →
      beat.s.shared.table.mark ≤ beat.s.shared.table.size →
      s'.shared.table.entries =
        beat.s.shared.table.entries.filter (fun entry => !beat.s.isSpent entry) ++
          [(receiver, beat.s.shared.groups.length)] →
      s'.shared.table.mark = max (2 * (s'.shared.table.size - 1)) firstMark →
      s'.shared.groups = beat.s.shared.groups ++ [{ object := receiver }] → Tabled client beat s'
  | grown (receiver : ObjectId) : beat.isAsked client = false →
      beat.made? client = some receiver →
      beat.s.shared.table.size < beat.s.shared.table.mark →
      s'.shared.table.entries =
        beat.s.shared.table.entries ++ [(receiver, beat.s.shared.groups.length)] →
      s'.shared.table.mark = beat.s.shared.table.mark →
      s'.shared.groups = beat.s.shared.groups ++ [{ object := receiver }] → Tabled client beat s'
  | still : beat.isAsked client = false → beat.made? client = none →
      s'.shared.table = beat.s.shared.table → Tabled client beat s'

namespace State

variable {client : Client W} {s s' : State W} {thread : ThreadId} {choice : Choice}

theorem keeps_eq (s : State W) (entry : ObjectId × GroupId) :
    s.shared.keeps s.isAlive entry.1 entry.2 = !s.isSpent entry := by
  rw [Shared.keeps, isSpent, Bool.not_and, Bool.not_not]

theorem entries_sweep (s : State W) : (s.shared.table.sweep (s.shared.keeps s.isAlive)).entries =
    s.shared.table.entries.filter fun entry => !s.isSpent entry :=
  congrArg (List.filter · _) (funext s.keeps_eq)

/-- A step sweeps the table, or gives it one more entry, or leaves it as it is. -/
theorem step_table (taken : s.step client thread choice = some s') :
    Tabled client ⟨s, thread⟩ s' := by
  have shifts := (step_shift taken).1
  have told : (⟨s, thread⟩ : Beat W).event client = s.event client thread := rfl
  generalize s.event client thread = e at shifts told
  cases e with
  | swept =>
    obtain ⟨groups, table⟩ := shifts
    refine .asked (by rw [Beat.isAsked, told]) (by rw [Beat.made?, told]) ?_ ?_ groups
    · rw [table]
      exact s.entries_sweep
    · rw [table]
      rfl
  | located receiver =>
    obtain ⟨groups, table⟩ := shifts
    have unasked : (⟨s, thread⟩ : Beat W).isAsked client = false := by rw [Beat.isAsked, told]
    cases found : s.shared.table.get? receiver with
    | some group =>
      simp only [Shared.locate, found] at groups table
      refine .still unasked ?_ table
      simp [Beat.made?, told, found]
    | none =>
      have makes : (⟨s, thread⟩ : Beat W).made? client = some receiver := by
        simp [Beat.made?, told, found]
      simp only [Shared.locate, found] at groups table
      unfold GroupTable.sweepIfFull at table
      split at table
      · rename_i full
        refine .automatic receiver unasked makes full ?_ ?_ groups
        · rw [table]
          exact congrArg (· ++ _) s.entries_sweep
        · rw [table, GroupTable.size_insert]
          rfl
      · rename_i room
        refine .grown receiver unasked makes (Nat.lt_of_not_le room) ?_ ?_ groups
        · rw [table]
          rfl
        · rw [table]
          rfl
  | appended receiver group f took | drained group futures | turned receiver group f
  | turnEnded group =>
    exact .still (by rw [Beat.isAsked, told]) (by rw [Beat.made?, told]) shifts.1
  | _ => exact .still (by rw [Beat.isAsked, told]) (by rw [Beat.made?, told]) shifts.2

end State

namespace Tabled

variable {client : Client W} {beat : Beat W} {s' : State W}

/-- The mark and the size that a step leaves, by how many entries it keeps if it sweeps the
table, and by whether it makes a group. -/
theorem law (tabled : Tabled client beat s') :
    (∃ kept, beat.kept? client = some kept ∧ s'.shared.table.mark = max (2 * kept) firstMark ∧
      s'.shared.table.size = kept + made client [beat]) ∨
    (beat.kept? client = none ∧ s'.shared.table.mark = beat.s.shared.table.mark ∧
      s'.shared.table.size = beat.s.shared.table.size + made client [beat] ∧
      (made client [beat] = 0 ∨ beat.s.shared.table.size < beat.s.shared.table.mark)) := by
  have counted := List.countP_eq_length_filter (p := fun entry => !beat.s.isSpent entry)
    (l := beat.s.shared.table.entries)
  cases tabled with
  | asked asks unmade entries mark groups =>
    have size := congrArg List.length entries
    rw [← counted] at size
    refine .inl ⟨_, by rw [Beat.kept?, asks]; rfl, ?_, ?_⟩
    · rw [mark, GroupTable.size, size]
    · simp [GroupTable.size, size, made, unmade]
  | automatic receiver unasked makes full entries mark groups =>
    have size := congrArg List.length entries
    rw [List.length_append, ← counted] at size
    refine .inl ⟨_, by simp [Beat.kept?, Beat.isAutomatic, makes, full]; rfl, ?_, ?_⟩
    · rw [mark, GroupTable.size, size]
      rfl
    · simp [GroupTable.size, size, made, makes]
  | grown receiver unasked makes room entries mark groups =>
    have calm : beat.kept? client = none := by
      simp [Beat.kept?, Beat.isAutomatic, unasked, Nat.not_le.2 room]
    have size := congrArg List.length entries
    refine .inr ⟨calm, mark, ?_, .inr room⟩
    simp [GroupTable.size, size, made, makes]
  | still unasked unmade table =>
    refine .inr ⟨by simp [Beat.kept?, Beat.isAutomatic, unasked, unmade], ?_, ?_, ?_⟩
    · rw [table]
    · simp [table, made, unmade]
    · simp [made, unmade]

end Tabled

/-! ## Along a run -/

section

variable {client : Client W}

theorem made_append (a b : List (Beat W)) :
    made client (a ++ b) = made client a + made client b := List.countP_append

theorem made_cons (beat : Beat W) (log : List (Beat W)) :
    made client (beat :: log) = made client [beat] + made client log := made_append [beat] log

theorem lastKept_concat (log : List (Beat W)) (beat : Beat W) :
    lastKept client (log ++ [beat]) = (beat.kept? client).getD (lastKept client log) := by
  rw [lastKept, List.filterMap_append]
  cases kept : beat.kept? client with
  | none => simp [kept, lastKept]
  | some n => simp [kept]

theorem exists_latest {log : List (Beat W)} {beat : Beat W} (mem : beat ∈ log)
    (sweeps : (beat.kept? client).isSome = true) : ∃ before latest after,
      log = before ++ latest :: after ∧ latest.kept? client = some (lastKept client log) ∧
      ∀ beat ∈ after, beat.kept? client = none := by
  induction log using List.reverseRecOn with
  | nil => cases mem
  | append_singleton log last ih =>
    rw [lastKept_concat]
    cases kept : last.kept? client with
    | some n => exact ⟨log, last, [], rfl, kept, by simp⟩
    | none =>
      have earlier : beat ∈ log := by
        rcases List.mem_append.1 mem with earlier | now
        · exact earlier
        · rw [List.mem_singleton.1 now, kept] at sweeps
          cases sweeps
      obtain ⟨before, latest, after, rfl, own, calm⟩ := ih earlier
      exact ⟨before, latest, after ++ [last], by simp, own,
        List.forall_mem_append.2 ⟨calm, List.forall_mem_singleton.2 kept⟩⟩

end

namespace State

variable {client : Client W} {start s : State W} {log : List (Beat W)}

theorem Log.table_of_calm (run : Log client start log s)
    (calm : ∀ beat ∈ log, beat.kept? client = none) :
    s.shared.table.mark = start.shared.table.mark ∧
      s.shared.table.size = start.shared.table.size + made client log := by
  induction run with
  | start => exact ⟨rfl, rfl⟩
  | @step log s s' thread choice _ taken ih =>
    obtain ⟨mark, size⟩ := ih fun beat mem => calm beat (List.mem_append_left _ mem)
    have none := calm ⟨s, thread⟩ (List.mem_append_right _ (List.mem_singleton_self _))
    rcases (step_table taken).law with ⟨kept, sweeps, _⟩ | ⟨_, mark', size', _⟩
    · rw [none] at sweeps
      cases sweeps
    · refine ⟨mark'.trans mark, ?_⟩
      rw [made_append, size', size, Nat.add_assoc]

variable {workers : Nat} {world : W} {kept : List ObjectId} {threads : List (Code W)}

theorem Log.mark_eq (run : Log client (State.start workers world kept threads) log s) :
    s.shared.table.mark = max (2 * lastKept client log) firstMark ∧
      s.shared.table.size ≤ s.shared.table.mark := by
  induction run with
  | start => exact ⟨rfl, Nat.zero_le _⟩
  | @step log s s' thread choice _ taken ih =>
    obtain ⟨mark, bound⟩ := ih
    have one : made client [(⟨s, thread⟩ : Beat W)] ≤ 1 := List.countP_le_length
    rw [lastKept_concat]
    rcases (step_table taken).law with ⟨n, sweeps, mark', size'⟩ | ⟨calm, mark', size', room⟩
    · rw [sweeps, mark', size', Option.getD_some, firstMark]
      omega
    · rw [calm, mark', size', Option.getD_none]
      refine ⟨mark, ?_⟩
      dsimp only at room ⊢
      omega

/-- Between two sweeps, of which the second is made since the table is full, as many groups are
made as the first one kept entries, and at least half the first mark. -/
theorem Log.made_of_calm (run : Log client start log s)
    {before between after : List (Beat W)} {sweep automatic : Beat W} {n : Nat}
    (eq : log = before ++ sweep :: (between ++ automatic :: after))
    (sweeps : sweep.kept? client = some n) (full : automatic.isAutomatic client = true)
    (calm : ∀ beat ∈ between, beat.kept? client = none) :
    max 32 n ≤ made client (sweep :: between) := by
  subst eq
  obtain ⟨_, choice, s₁, taken, later⟩ := run.split
  obtain ⟨going, _⟩ := later.split
  obtain ⟨mark, size⟩ := going.table_of_calm calm
  rw [Beat.isAutomatic, Bool.and_eq_true, decide_eq_true_eq] at full
  have law : Tabled client sweep s₁ := step_table taken
  rcases law.law with ⟨n', sweeps', mark', size'⟩ | ⟨none, _⟩
  · obtain rfl := Option.some.inj (sweeps.symm.trans sweeps')
    have reached := full.2
    rw [mark, size, mark', size', firstMark] at reached
    rw [made_cons]
    omega
  · rw [none] at sweeps
    cases sweeps

theorem Log.made_of_full (run : Log client start log s)
    {before between after : List (Beat W)} {sweep automatic : Beat W}
    (eq : log = before ++ sweep :: (between ++ automatic :: after))
    (sweeps : (sweep.kept? client).isSome = true) (full : automatic.isAutomatic client = true) :
    max 32 (lastKept client (sweep :: between)) ≤ made client (sweep :: between) := by
  obtain ⟨earlier, latest, later, split, own, calm⟩ :=
    exists_latest (List.mem_cons_self (a := sweep) (l := between)) sweeps
  have whole : log = (before ++ earlier) ++ latest :: (later ++ automatic :: after) := by
    calc log = before ++ (sweep :: between) ++ automatic :: after := by rw [eq]; simp
      _ = _ := by rw [split]; simp
  have enough := run.made_of_calm whole own full calm
  have more : made client (sweep :: between) =
      made client earlier + made client (latest :: later) := by
    rw [split, made_append]
  omega

theorem answer_of_asked {s' : State W} {thread : ThreadId} {choice : Choice} {role : Role W}
    {next : Reply → Code W} {below : List (Frame W)}
    (stack : s.stackOf thread = .running role (.ask .sweep next) :: below)
    (taken : s.step client thread choice = some s') :
    (⟨s, thread⟩ : Beat W).isAsked client = true ∧ s'.stackOf thread =
      .deliver (.number (s.shared.table.entries.countP s.isSpent)) ::
        .waiting role next :: below := by
  obtain ⟨worker, p, moved, _, stack', event⟩ := own_event stack (by rintro reply ⟨⟩) taken
  refine ⟨by rw [Beat.isAsked, Beat.event, event]; rfl, ?_⟩
  cases moved
  have removed : s.shared.table.size - (s.shared.sweep s.isAlive).table.size =
      s.shared.table.entries.countP s.isSpent := by
    have split := List.length_eq_countP_add_countP s.isSpent (l := s.shared.table.entries)
    have left := congrArg List.length s.entries_sweep
    rw [← List.countP_eq_length_filter] at left
    rw [Shared.sweep, GroupTable.size, GroupTable.size, left, split]
    simp
  rw [stack', ← removed]
  rfl

/-- What is promised of the table of groups along a run. -/
structure Reclaims (client : Client W) (log : List (Beat W)) (s : State W) : Prop where
  /-- A sweep takes out the entries whose receiver is gone and whose lane is idle, and leaves all
  else as it is; nothing but a sweep takes any out. -/
  exact : ∀ thread choice s', s.step client thread choice = some s' → Tabled client ⟨s, thread⟩ s'
  /-- A client that asks for a sweep is told how many entries that were. -/
  answer : ∀ thread choice s' role next below,
    s.stackOf thread = .running role (.ask .sweep next) :: below →
    s.step client thread choice = some s' →
    (⟨s, thread⟩ : Beat W).isAsked client = true ∧ s'.stackOf thread =
      .deliver (.number (s.shared.table.entries.countP s.isSpent)) :: .waiting role next :: below
  floor : 64 ≤ s.shared.table.mark
  bound : s.shared.table.size ≤ s.shared.table.mark
  mark : s.shared.table.mark = max (2 * lastKept client log) 64
  /-- After a sweep, as many groups are made as the latest one kept entries, and at least 32,
  before the table is swept since it is full. -/
  spaced : ∀ before sweep between automatic after,
    log = before ++ sweep :: (between ++ automatic :: after) →
    (sweep.kept? client).isSome = true → automatic.isAutomatic client = true →
    max 32 (lastKept client (sweep :: between)) ≤ made client (sweep :: between)

theorem Log.reclaims (run : Log client (State.start workers world kept threads) log s) :
    Reclaims client log s where
  exact _ _ _ := step_table
  answer _ _ _ _ _ _ := answer_of_asked
  floor := by
    rw [run.mark_eq.1]
    exact Nat.le_max_right _ _
  bound := run.mark_eq.2
  mark := run.mark_eq.1
  spaced _ _ _ _ _ := run.made_of_full

end State

namespace Sample

/-- Put a unit on the lane of each of some receivers. -/
def submitAll (receivers : List ObjectId) (next : Code Unit) : Code Unit :=
  receivers.foldr (fun r next => create fun f => schedule (.group r) f next) next

/-- A receiver is let go of once its unit has been put on its lane. -/
def passing : Code Unit := submitAll [1, 2] <| .ask (.drop 1) fun _ => .ask .sweep fun _ => done

/-- Two sweeps, of which the second keeps one entry less than the first one. -/
def crowding : Code Unit :=
  submitAll (List.range' 1 33) <| .ask .sweep fun _ => .ask (.drop 1) fun _ =>
    .ask .sweep fun _ => submitAll (List.range' 34 33) done

end Sample

namespace State

open Sample

def passingStart : State Unit := State.start 1 () [1, 2] [passing]

/-- The client puts its units, the worker runs them, and the client lets go of a receiver. -/
def passingTurns : List ThreadId :=
  List.replicate 24 1 ++ List.replicate 30 0 ++ List.replicate 2 1

def passed : State Unit := (passingStart.replay (client value) passingTurns).2

theorem reclaims_passed : ∃ s' role next, passed.step (client value) 1 = some s' ∧
    s'.stackOf 1 = [.deliver (.number 1), .waiting role next] := by
  have run : Log (client value) passingStart (passingStart.beats (client value) passingTurns)
      passed := log_beats _ _ _
  obtain ⟨role, next, stack⟩ : ∃ role next,
      passed.stackOf 1 = [.running role (.ask .sweep next)] := ⟨_, _, rfl⟩
  obtain ⟨s', taken⟩ : ∃ s', passed.step (client value) 1 = some s' := ⟨_, rfl⟩
  have spent : passed.shared.table.entries.countP passed.isSpent = 1 := by decide +kernel
  have answer := (run.reclaims.answer 1 {} s' role next [] stack taken).2
  rw [spent] at answer
  exact ⟨s', role, next, taken, answer⟩

def crowdedStart : State Unit := State.start 1 () (List.range' 1 66) [crowding]

def crowdedTurns : List ThreadId := List.replicate 396 1

def crowdedLater : List ThreadId := List.replicate 8 0 ++ List.replicate 395 1

def crowded : State Unit := (crowdedStart.replay (client value) crowdedTurns).2

def crowdedSwept : State Unit := (crowded.replay (client value) [1]).2

def crowdedFull : State Unit := (crowdedSwept.replay (client value) crowdedLater).2

theorem beats_one {client : Client W} {s : State W} {thread : ThreadId}
    (moves : (s.step client thread).isSome = true) : s.beats client [thread] = [⟨s, thread⟩] := by
  obtain ⟨s', taken⟩ := Option.isSome_iff_exists.1 moves
  simp only [beats, taken]

theorem crowded_facts : (crowded.step (client value) 1).isSome = true ∧
    (crowdedFull.step (client value) 1).isSome = true ∧
    (⟨crowded, 1⟩ : Beat Unit).kept? (client value) = some 33 ∧
    (⟨crowdedFull, 1⟩ : Beat Unit).isAutomatic (client value) = true ∧
    (crowdedSwept.beats (client value) crowdedLater).all
      (fun beat => !beat.isAutomatic (client value)) = true ∧
    made (client value)
      (⟨crowded, 1⟩ :: crowdedSwept.beats (client value) crowdedLater) = 32 := by
  decide +kernel

/-- A sweep that a client asks for may keep less than the one before, and so leave room for less
than that one did. -/
theorem not_spaced_across_sweeps : ¬ ∀ (log : List (Beat Unit)) (s : State Unit),
    Log (client value) crowdedStart log s → ∀ before sweep between automatic after n,
      log = before ++ sweep :: (between ++ automatic :: after) →
      sweep.kept? (client value) = some n → automatic.isAutomatic (client value) = true →
      (∀ beat ∈ between, beat.isAutomatic (client value) = false) →
      max 32 n ≤ made (client value) (sweep :: between) := by
  intro spaced
  have first := log_beats (client value) crowdedStart crowdedTurns
  have sweeping := log_beats (client value) crowded [1]
  have between := log_beats (client value) crowdedSwept crowdedLater
  have last := log_beats (client value) crowdedFull [1]
  obtain ⟨moves, moves', sweeps, full, calm, grown⟩ := crowded_facts
  rw [beats_one moves] at sweeping
  rw [beats_one moves'] at last
  have run := ((first.append sweeping).append between).append last
  have bound := spaced _ _ run (crowdedStart.beats (client value) crowdedTurns) ⟨crowded, 1⟩
    (crowdedSwept.beats (client value) crowdedLater) ⟨crowdedFull, 1⟩ [] 33 (by simp) sweeps full
    fun beat mem => by simpa using List.all_eq_true.1 calm beat mem
  rw [grown] at bound
  exact absurd bound (by decide)

end State
end Strands
