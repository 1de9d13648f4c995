/-
Units of one receiver in a line.

`Routine.runAll` and `Routine.results` are what units come to that run one after another
with nobody in between.  `Serial` compares a run with that: it has for each receiver the
units that have begun, in the order in which they did.  Those that have ended have the
outcomes that they have then, and when all have, the cell is as they leave it.  A step may
begin a unit (`Serial.turn`), end one (`Serial.finish`) or do neither (`Serial.keep`).

While a unit runs, what it has still to do, on what is in the cell now, comes to the same
as all of it on what the units before it left: `Underway`.
-/
import Strands.Proofs.Cells
import Strands.Proofs.Serial

namespace Strands

/-! ## Frames that stay -/

namespace Acted

variable {W : Type} {client : Client W} {s s' : State W} {thread : ThreadId} {choice : Choice}

/-- The frames that a step leaves where they are. -/
def others (acted : Acted client s s' thread choice) : List (Frame W) :=
  acted.before.flatMap Thread.stack ++ acted.below ++ acted.after.flatMap Thread.stack

variable (acted : Acted client s s' thread choice)

theorem of_mem_others {frame : Frame W} (mem : frame ∈ acted.others) :
    ∃ t ∈ s.threads, frame ∈ t.stack := by
  rw [acted.threads]
  simp only [others, List.mem_append, List.mem_flatMap] at mem
  rcases mem with (⟨t, before, inStack⟩ | below) | ⟨t, after, inStack⟩
  · exact ⟨t, by simp [before], inStack⟩
  · exact ⟨acted.actor, by simp, by rw [acted.stack]; exact List.mem_append_right _ below⟩
  · exact ⟨t, by simp [after], inStack⟩

theorem frame_cases {t : Thread W} (mem : t ∈ s'.threads) {frame : Frame W}
    (inStack : frame ∈ t.stack) :
    frame ∈ acted.progress.frames ∨ frame ∈ acted.others ∨
      ∃ code ∈ acted.progress.spawned, frame = .running .thread code := by
  rw [acted.threads'] at mem
  simp only [others, List.mem_append, List.mem_cons, List.mem_map, List.mem_flatMap] at mem ⊢
  rcases mem with (before | rfl | after) | ⟨code, spawned, rfl⟩
  · exact .inr (.inl (.inl (.inl ⟨t, before, inStack⟩)))
  · rcases List.mem_append.1 inStack with new | below
    · exact .inl new
    · exact .inr (.inl (.inl (.inr below)))
  · exact .inr (.inl (.inr ⟨t, after, inStack⟩))
  · exact .inr (.inr ⟨code, spawned, List.mem_singleton.1 inStack⟩)

/-- Frames that stay hold nothing of what those hold that act. -/
theorem weigh_top_add_le {frame : Frame W} (mem : frame ∈ acted.others) (w : Stake → Nat) :
    weigh w (Frame.stakesOf acted.top) + weigh w frame.stakes ≤ weigh w s.stakes := by
  have le : weigh w frame.stakes ≤ weigh w (Frame.stakesOf acted.others) := by
    rw [Frame.stakesOf, weigh_flatMap]
    exact le_sum_map (n := fun frame : Frame W => weigh w frame.stakes) mem
  have frames : ∀ threads : List (Thread W), weigh w (Thread.stakesOf threads) =
      weigh w (Frame.stakesOf (threads.flatMap Thread.stack)) := fun threads => by
    rw [Frame.stakesOf, List.flatMap_assoc]
    rfl
  simp only [State.stakes, weigh_append, frames, acted.threads, List.flatMap_append,
    List.flatMap_cons, acted.stack, others, Frame.stakesOf_append] at le ⊢
  omega

end Acted

theorem Move.act_of_running {W : Type} {client : Client W} {sight : Sight} {choice : Choice}
    {s : Shared W} {top : List (Frame W)} {p : Progress W} {role : Role W} {code : Code W}
    (move : Move client sight choice s top p) (mem : .running role code ∈ top) :
    top = [.running role code] ∧ code.step client sight choice.late s role = some p := by
  cases move with
  | receive reply role next | pass reply held => simp at mem
  | act taken =>
    obtain rfl := List.mem_singleton.1 mem
    exact ⟨rfl, taken⟩

/-! ## Units one after another -/

variable {σ : Type}

namespace Routine

/-- What units leave in a cell that run one after another. -/
def runAll (units : List (FutureId × Routine σ)) (value : σ) : σ :=
  units.foldl (fun value u => (u.2.run value).1) value

/-- The outcomes of units that run one after another, with their futures. -/
def results : List (FutureId × Routine σ) → σ → List (FutureId × Outcome)
  | [], _ => []
  | u :: units, value => (u.1, .ofEnd (u.2.run value).2) :: results units (u.2.run value).1

@[simp] theorem runAll_concat (units : List (FutureId × Routine σ)) (u : FutureId × Routine σ)
    (value : σ) : runAll (units ++ [u]) value = (u.2.run (runAll units value)).1 := by
  simp [runAll]

theorem results_concat (units : List (FutureId × Routine σ)) (u : FutureId × Routine σ)
    (value : σ) : results (units ++ [u]) value =
      results units value ++ [(u.1, .ofEnd (u.2.run (runAll units value)).2)] := by
  induction units generalizing value with
  | nil => rfl
  | cons first rest ih => exact congrArg (_ :: ·) (ih _)

@[simp] theorem map_fst_results (units : List (FutureId × Routine σ)) (value : σ) :
    (results units value).map Prod.fst = units.map Prod.fst := by
  induction units generalizing value with
  | nil => rfl
  | cons first rest ih => exact congrArg (_ :: ·) (ih _)

end Routine

open Routine (runAll results)

/-! ## Units that have begun -/

structure Serial (cells : Cells σ) (ds : List (Deed (Cells σ))) (history : List Event)
    (world : Cells σ) (units : ObjectId → List (FutureId × Routine σ)) : Prop where
  order : ∀ r, (units r).map Prod.fst = starts r history
  started : ∀ r, ∀ u ∈ units r, ∃ job, .started job (u.2.code r) ∈ ds ∧ job.future = u.1
  ended : ∀ r f outcome, (f, outcome) ∈ results (units r) (cells r) →
    ∀ outcome', .ended f outcome' ∈ history → outcome' = outcome
  /-- Between two units of a receiver the cell is as the first of them left it. -/
  between : ∀ r, (∀ u ∈ units r, ∃ outcome, .ended u.1 outcome ∈ history) →
    world r = runAll (units r) (cells r)

theorem starts_concat {r : ObjectId} {history : List Event} {e : Event}
    (unturned : ∀ r g f, e ≠ .turned r g f) : starts r (history ++ [e]) = starts r history := by
  rw [starts_append]
  cases e with
  | turned r' g f => exact absurd rfl (unturned r' g f)
  | _ => exact List.append_nil _

namespace Serial

variable {cells : Cells σ} {ds : List (Deed (Cells σ))} {history : List Event}
  {world : Cells σ} {units : ObjectId → List (FutureId × Routine σ)}
  (serial : Serial cells ds history world units)

include serial

theorem turned {r : ObjectId} {u : FutureId × Routine σ} (mem : u ∈ units r) :
    ∃ g, .turned r g u.1 ∈ history := by
  refine of_mem_starts ?_
  rw [← serial.order r]
  exact List.mem_map_of_mem mem

theorem keep {e : Event} {δ : Deed (Cells σ)} {world' : Cells σ}
    (unturned : ∀ r g f, e ≠ .turned r g f) (unended : ∀ f outcome, e ≠ .ended f outcome)
    (same : ∀ r, (∀ u ∈ units r, ∃ outcome, .ended u.1 outcome ∈ history) →
      world' r = world r) :
    Serial cells (ds ++ [δ]) (history ++ [e]) world' units := by
  have earlier {f : FutureId} {outcome : Outcome}
      (mem : .ended f outcome ∈ history ++ [e]) : .ended f outcome ∈ history :=
    (List.mem_append.1 mem).resolve_right fun new =>
      unended f outcome (List.mem_singleton.1 new).symm
  refine ⟨fun r => ?_, fun r u mem => ?_, fun r f outcome mem outcome' ended => ?_,
    fun r ends => ?_⟩
  · exact (serial.order r).trans (starts_concat unturned).symm
  · obtain ⟨job, started, own⟩ := serial.started r u mem
    exact ⟨job, List.mem_append_left _ started, own⟩
  · exact serial.ended r f outcome mem outcome' (earlier ended)
  · have ends' : ∀ u ∈ units r, ∃ outcome, .ended u.1 outcome ∈ history := fun u mem => by
      obtain ⟨outcome, ended⟩ := ends u mem
      exact ⟨outcome, earlier ended⟩
    rw [same r ends']
    exact serial.between r ends'

/-- A unit begins, all others of its receiver having ended. -/
theorem turn {r : ObjectId} {g : GroupId} {job : Job (Cells σ)} {routine : Routine σ}
    (unended : ∀ outcome, .ended job.future outcome ∉ history) :
    Serial cells (ds ++ [.started job (routine.code r)])
      (history ++ [.turned r g job.future]) world
      (Function.update units r (units r ++ [(job.future, routine)])) := by
  have earlier {f : FutureId} {outcome : Outcome}
      (mem : .ended f outcome ∈ history ++ [.turned r g job.future]) :
      .ended f outcome ∈ history :=
    (List.mem_append.1 mem).resolve_right (by simp)
  have old {r' : ObjectId} {u : FutureId × Routine σ} (mem : u ∈ units r') :
      ∃ job', .started job' (u.2.code r') ∈ ds ++ [.started job (routine.code r)] ∧
        job'.future = u.1 := by
    obtain ⟨job', started, own⟩ := serial.started r' u mem
    exact ⟨job', List.mem_append_left _ started, own⟩
  refine ⟨fun r' => ?_, fun r' => ?_, fun r' f outcome => ?_, fun r' => ?_⟩
  all_goals by_cases same : r' = r
  -- The receiver's units are one more, those of the others are as they were.
  all_goals first
    | rw [Function.update_of_ne same]
    | rw [same, Function.update_self]
  · rw [List.map_append, serial.order, starts_append]
    simp [starts]
  · rw [serial.order, starts_append]
    simp [starts, Ne.symm same]
  · intro u mem
    rcases List.mem_append.1 mem with before | new
    · exact old before
    · rw [List.mem_singleton.1 new]
      exact ⟨job, by simp, rfl⟩
  · exact fun u => old
  · intro mem outcome' ended
    rw [Routine.results_concat] at mem
    rcases List.mem_append.1 mem with before | new
    · exact serial.ended r f outcome before outcome' (earlier ended)
    · cases List.mem_singleton.1 new
      exact absurd (earlier ended) (unended outcome')
  · exact fun mem outcome' ended => serial.ended r' f outcome mem outcome' (earlier ended)
  · intro ends
    obtain ⟨outcome, ended⟩ := ends (job.future, routine) (by simp)
    exact absurd (earlier ended) (unended outcome)
  · intro ends
    refine serial.between r' fun u mem => ?_
    obtain ⟨outcome, ended⟩ := ends u mem
    exact ⟨outcome, earlier ended⟩

/-- The last unit of a receiver ends as it does on what those before it left. -/
theorem finish {r : ObjectId} {job : Job (Cells σ)} {earlier : List (FutureId × Routine σ)}
    {routine : Routine σ} {result : Except Panic Outcome}
    (last : units r = earlier ++ [(job.future, routine)])
    (runs : routine.run (runAll earlier (cells r)) = (world r, result))
    (distinct : job.future ∉ earlier.map Prod.fst)
    (alone : ∀ r', ∀ u ∈ units r', u.1 = job.future → r' = r) :
    Serial cells (ds ++ [.ended job result])
      (history ++ [.ended job.future (.ofEnd result)]) world units := by
  refine ⟨fun r' => ?_, fun r' u mem => ?_, fun r' f outcome mem outcome' ended => ?_,
    fun r' ends => ?_⟩
  · exact (serial.order r').trans (starts_concat (by simp)).symm
  · obtain ⟨job', started, own⟩ := serial.started r' u mem
    exact ⟨job', List.mem_append_left _ started, own⟩
  · rcases List.mem_append.1 ended with old | new
    · exact serial.ended r' f outcome mem outcome' old
    obtain ⟨rfl, rfl⟩ : f = job.future ∧ outcome' = .ofEnd result := by
      simpa using List.mem_singleton.1 new
    have among : job.future ∈ (units r').map Prod.fst := by
      rw [← Routine.map_fst_results (units r') (cells r')]
      exact List.mem_map_of_mem mem
    obtain ⟨u, own, same⟩ := List.mem_map.1 among
    obtain rfl := alone r' u own same
    rw [last, Routine.results_concat, runs] at mem
    rcases List.mem_append.1 mem with before | here
    · refine absurd ?_ distinct
      rw [← Routine.map_fst_results earlier (cells r')]
      exact List.mem_map_of_mem before
    · cases List.mem_singleton.1 here
      rfl
  · by_cases same : r' = r
    · rw [same, last, Routine.runAll_concat, runs]
    · refine serial.between r' fun u mem => ?_
      obtain ⟨outcome, ended⟩ := ends u mem
      rcases List.mem_append.1 ended with old | new
      · exact ⟨outcome, old⟩
      · exact absurd (alone r' u mem (Event.ended.inj (List.mem_singleton.1 new)).1) same

end Serial

/-! ## Units that run -/

/-- The unit of a job is the last of its receiver that has begun.  `rest` is what it has
still to do. -/
def Underway (cells : Cells σ) (units : ObjectId → List (FutureId × Routine σ)) (world : Cells σ)
    (job : Job (Cells σ)) (code : Code (Cells σ)) : Prop :=
  ∃ (r : ObjectId) (earlier : List (FutureId × Routine σ)) (routine rest : Routine σ),
    units r = earlier ++ [(job.future, routine)] ∧ code = rest.code r ∧
      rest.run (world r) = routine.run (runAll earlier (cells r))

def Deed.Usual (δ : Deed (Cells σ)) : Prop := (∃ job result, δ = .ended job result) ∨ δ.Tame

def Event.ofCall : Event → Bool
  | opened _ _ _ | argument _ _ | faulted _ _ | failed _ _ => true
  | _ => false

theorem Deed.Usual.not_ofCall {δ : Deed (Cells σ)} {e : Event} (usual : δ.Usual)
    (tells : δ.Tells e) : e.ofCall = false := by
  cases tells with
  | bare bare => cases e <;> first | rfl | cases bare
  | placed | bound | located | started | turned | ended => rfl
  | _ => simp [Usual, Tame] at usual

structure Tidy (cells : Cells σ) (ds : List (Deed (Cells σ))) (history : List Event)
    (s : State (Cells σ)) (units : ObjectId → List (FutureId × Routine σ)) : Prop where
  serial : Serial cells ds history s.shared.world units
  frames : ∀ t ∈ s.threads, ∀ frame ∈ t.stack, frame.Tame (Underway cells units s.shared.world)
  shared : s.shared.Tame
  deeds : ∀ δ ∈ ds, δ.Usual
  /-- No unit runs but in a turn of its receiver's group. -/
  turns : ∀ f, .started f ∉ history

/-- A step that leaves tame frames, and units under way. -/
theorem Tidy.step {cells : Cells σ} {ds : List (Deed (Cells σ))} {history : List Event}
    {client : Client (Cells σ)} {s s' : State (Cells σ)} {thread : ThreadId} {choice : Choice}
    {units units' : ObjectId → List (FutureId × Routine σ)} {δ : Deed (Cells σ)} {e : Event}
    (tidy : Tidy cells ds history s units) (acted : Acted client s s' thread choice)
    (serial : Serial cells (ds ++ [δ]) (history ++ [e]) s'.shared.world units')
    (usual : δ.Usual) (unstarted : ∀ f, e ≠ .started f)
    (left : ∀ frame ∈ acted.progress.frames, frame.Tame (Underway cells units' s'.shared.world))
    (spawned : ∀ code ∈ acted.progress.spawned, code.Tame) (shared : acted.progress.shared.Tame)
    (stays : ∀ job code, .running (.task job) code ∈ acted.others →
      Underway cells units s.shared.world job code →
      Underway cells units' s'.shared.world job code) :
    Tidy cells (ds ++ [δ]) (history ++ [e]) s' units' where
  serial := serial
  frames t mem frame inStack := by
    rcases acted.frame_cases mem inStack with new | other | ⟨code, started, rfl⟩
    · exact left frame new
    · obtain ⟨t', mem', inStack'⟩ := acted.of_mem_others other
      refine (tidy.frames t' mem' frame inStack').imp ?_
      rintro job code rfl
      exact stays job code other
    · exact Frame.tame_of_isOwn rfl (spawned code started)
  shared := acted.shared' ▸ shared
  deeds := List.forall_mem_append.2 ⟨tidy.deeds, List.forall_mem_singleton.2 usual⟩
  turns f mem := by
    rcases List.mem_append.1 mem with old | new
    · exact tidy.turns f old
    · exact unstarted f (List.mem_singleton.1 new).symm

end Strands
