/-
Completions are backed by the count of work in flight.

Whoever gives a future an outcome, or waits for its callback to return, holds a share of
the count beneath it, unless the future is that of a call that has failed:
`Frame.Backed`.  So once no work is in flight, a future whose unit was counted is
complete, whoever placed the unit (`Trace.completed_of_backed`).
-/
import Strands.Proofs.Completion
import Strands.Proofs.RunQueueSteps
import Strands.Proofs.Serial

namespace Strands

variable {W : Type}

/-- Whoever completes a future holds a share of the count, unless its call failed. -/
def Frame.Backed (history : List Event) (below : List (Frame W)) : Frame W → Prop
  | settle f outcome => Guarded below ∨ Failed history f outcome
  | announce f => Guarded below ∨ ∃ outcome, Failed history f outcome
  | _ => True

section Backing

variable {history : List Event} {below : List (Frame W)}

theorem Frame.Backed.mono {e : Event} {frame : Frame W} (h : frame.Backed history below) :
    frame.Backed (history ++ [e]) below := by
  cases frame with
  | settle f outcome => exact h.imp_right Failed.mono
  | announce f => exact h.imp_right fun ⟨outcome, failed⟩ => ⟨outcome, failed.mono⟩
  | _ => trivial

theorem backed_of_calm {frames : List (Frame W)} (calm : Calm frames)
    (rest : Stacked (Frame.Backed history) below) :
    Stacked (Frame.Backed history) (frames ++ below) := by
  induction frames with
  | nil => exact rest
  | cons frame others ih =>
    obtain ⟨here, others⟩ := calm_cons.1 calm
    refine ⟨?_, ih others⟩
    cases frame <;> trivial

theorem Job.refuse_backed (job : Job W) (rest : Stacked (Frame.Backed history) below) :
    Stacked (Frame.Backed history) (job.refuse ++ below) :=
  ⟨.inl (guarded_of_discard (List.mem_cons_self ..)), trivial, rest⟩

theorem Job.refuse_all_backed (jobs : List (Job W))
    (rest : Stacked (Frame.Backed history) below) :
    Stacked (Frame.Backed history) (jobs.flatMap Job.refuse ++ below) := by
  induction jobs with
  | nil => exact rest
  | cons job others ih =>
    rw [List.flatMap_cons, List.append_assoc]
    exact job.refuse_backed ih

theorem Item.refuse_all_backed (items : List (Item W))
    (rest : Stacked (Frame.Backed history) below) :
    Stacked (Frame.Backed history) (items.flatMap Item.refuse ++ below) := by
  induction items with
  | nil => exact rest
  | cons item others ih =>
    rw [List.flatMap_cons, List.append_assoc]
    cases item with
    | job job => exact job.refuse_backed ih
    | group group => exact ⟨trivial, ih⟩

theorem Next.failed_backed (next : Next W) (direct : Bool) (e : DomainError)
    (rest : Stacked (Frame.Backed history) below) :
    Stacked (Frame.Backed history) (next.resume direct (.error e) ++ below) := by
  cases next with
  | place call =>
    exact ⟨.inl (guarded_of_leave (by simp)), trivial, trivial, trivial, rest⟩
  | client continuation => cases direct <;> exact ⟨trivial, trivial, rest⟩

theorem Next.abandoned_backed (next : Next W) (panic : Panic)
    (rest : Stacked (Frame.Backed (history ++ [next.failedEvent (.ofPanic panic)])) below) :
    Stacked (Frame.Backed (history ++ [next.failedEvent (.ofPanic panic)]))
      (next.abandon panic ++ below) := by
  cases next with
  | place call => exact ⟨trivial, trivial, .inr (Next.mem_of_failedEvent rfl), rest⟩
  | client continuation => exact ⟨trivial, rest⟩

variable {client : Client W} {worker : Bool} {s : Shared W}

theorem Site.answered_backed (object : ObjectId) (type : ObjectType W) (site : Site W)
    (rest : Stacked (Frame.Backed history) below) :
    Stacked (Frame.Backed history) ((site.answered s object type).frames ++ below) := by
  cases site with
  | omitted lookup =>
    cases missing : type.omitted lookup.method lookup.args.length with
    | error e =>
      simp only [answered, missing]
      rw [List.append_assoc]
      exact lookup.next.failed_backed true e ⟨trivial, rest⟩
    | ok pending =>
      cases pending with
      | nil =>
        simp only [answered, missing]
        exact backed_of_calm (by simp) rest
      | cons first others =>
        simp only [answered, missing]
        exact ⟨trivial, rest⟩
  | expressions lookup pending => exact ⟨trivial, backed_of_calm (by simp) rest⟩
  | listener stopping =>
    simp only [answered]
    split <;> exact ⟨trivial, rest⟩
  | _ => exact ⟨trivial, rest⟩

theorem Site.panicked_backed (object : ObjectId) (panic : Panic) (site : Site W)
    (rest : Stacked (Frame.Backed (history ++ [site.panickedEvent panic])) below) :
    Stacked (Frame.Backed (history ++ [site.panickedEvent panic]))
      (site.panicked object panic ++ below) := by
  cases site with
  | lane call =>
    refine ⟨.inr (.inr (.inl ⟨.ofPanic panic, .inl ?_, rfl⟩)), rest⟩
    simp [panickedEvent]
  | omitted lookup | expressions lookup pending => exact lookup.next.abandoned_backed panic rest
  | _ => exact ⟨trivial, rest⟩

theorem Role.ended_backed (role : Role W) (result : Except Panic Outcome)
    (rest : Stacked (Frame.Backed (history ++ [role.endedEvent client s result])) below) :
    Stacked (Frame.Backed (history ++ [role.endedEvent client s result]))
      ((role.ended client s result).frames ++ below) := by
  cases role with
  | task job => exact ⟨.inl (guarded_of_leave (List.mem_cons_self ..)), trivial, rest⟩
  | query object site =>
    cases result with
    | ok outcome => exact site.answered_backed object _ rest
    | error panic => exact site.panicked_backed object panic rest
  | continuation | call receiver args => cases result <;> exact ⟨trivial, rest⟩
  | handler stopping => exact ⟨trivial, rest⟩
  | thread | callback outcome | continued => exact rest

theorem Callback.notify_backed (callback : Callback W) (outcome : Outcome)
    (rest : Stacked (Frame.Backed history) below) :
    Stacked (Frame.Backed history) (callback.notify outcome ++ below) := by
  cases callback with
  | silent => exact rest
  | client notify => exact ⟨trivial, rest⟩
  | argument resolution =>
    cases outcome with
    | ok value => exact ⟨trivial, rest⟩
    | error e =>
      simp only [notify]
      rw [List.append_assoc]
      exact resolution.next.failed_backed false e ⟨trivial, trivial, rest⟩

theorem settleStep_backed {f : FutureId} {outcome : Outcome}
    (backed : (Frame.settle f outcome : Frame W).Backed history below)
    (rest : Stacked (Frame.Backed history) below) :
    Stacked (Frame.Backed history) ((settleStep s f outcome).frames ++ below) := by
  simp only [settleStep]
  split
  · rename_i callback _ _ _ _
    have announced : Stacked (Frame.Backed history) (.announce f :: below) :=
      ⟨backed.imp_right fun failed => ⟨outcome, failed⟩, rest⟩
    rw [List.append_assoc]
    cases callback with
    | none => exact announced
    | some callback => exact callback.notify_backed outcome announced
  · exact rest

theorem openCallStep_backed (call : Call W) (metadata : Metadata) (fault : Option Panic)
    (rest : Stacked (Frame.Backed
      (history ++ [Frame.event client worker s below (.openCall call metadata fault)])) below) :
    Stacked (Frame.Backed
        (history ++ [Frame.event client worker s below (.openCall call metadata fault)]))
      ((openCallStep s call metadata fault).frames ++ below) := by
  cases fault with
  | some panic =>
    have failed : Failed (history ++ [Frame.event client worker s below
        (.openCall call metadata (some panic))]) s.futures.nextId (.error (.ofPanic panic)) :=
      .inl ⟨panic, context below, by simp [Frame.event], rfl⟩
    exact ⟨.inr failed, trivial, trivial, rest⟩
  | none =>
    refine backed_of_calm ?_ rest
    cases mode : call.mode <;> simp [openCallStep, mode, Frame.isCalm]

theorem Frame.step_backed {sight : Sight} {choice : Choice} {frame : Frame W} {p : Progress W}
    (taken : frame.step client sight choice s = some p) (backed : frame.Backed history below)
    (rest : Stacked (Frame.Backed (frame.after client worker s history below)) below) :
    Stacked (Frame.Backed (frame.after client worker s history below)) (p.frames ++ below) := by
  by_cases quiet : frame.stirs = false
  · exact backed_of_calm (step_of_not_stirs quiet taken).2 rest
  cases frame with
  | running role code =>
    cases code with
    | finish outcome | panic payload => cases taken; exact role.ended_backed _ rest
    | _ => exact absurd rfl quiet
  | push job asker =>
    cases taken
    simp only [pushStep]
    split
    · exact ⟨trivial, backed_of_calm (by simp) rest⟩
    · rw [List.append_assoc]
      exact job.refuse_backed (backed_of_calm (by simp) rest)
  | checkOpen receiver job asker =>
    cases taken
    simp only [checkOpenStep]
    split
    · rw [List.append_assoc]
      exact job.refuse_backed (backed_of_calm (by simp) rest)
    · exact ⟨trivial, rest⟩
  | append receiver group job asker =>
    cases taken
    simp only [appendStep]
    split
    · dsimp only
      split
      · exact backed_of_calm (by simp) rest
      · exact ⟨trivial, rest⟩
    · rw [List.append_assoc]
      exact job.refuse_backed (backed_of_calm (by simp) rest)
  | submit group asker =>
    cases taken
    simp only [submitStep]
    split <;> exact ⟨trivial, backed_of_calm (by simp) rest⟩
  | drain group =>
    cases taken
    simp only [drainStep]
    split
    · exact Job.refuse_all_backed _ rest
    · exact rest
  | settle f outcome => cases taken; exact settleStep_backed backed.mono rest
  | openCall call metadata fault => cases taken; exact openCallStep_backed call metadata fault rest
  | poll =>
    cases taken
    simp only [pollStep]
    split <;> exact ⟨trivial, by first | exact rest | exact ⟨trivial, rest⟩⟩
  | turn group =>
    cases taken
    simp only [turnStep]
    split
    · dsimp only
      split
      · exact ⟨trivial, trivial, rest⟩
      · exact rest
    · exact rest
  | endTurn group =>
    cases taken
    simp only [endTurnStep]
    split
    · dsimp only
      split
      · exact rest
      · exact ⟨trivial, rest⟩
    · exact rest
  | close =>
    cases taken
    simp only [closeStep]
    rw [List.append_assoc]
    exact Item.refuse_all_backed _ ⟨trivial, trivial, trivial, rest⟩
  | _ => exact absurd rfl quiet

theorem Move.backed {sight : Sight} {choice : Choice} {top : List (Frame W)} {p : Progress W}
    (move : Move client sight choice s top p)
    (backed : Stacked (Frame.Backed history) (top ++ below))
    (rest : Stacked (Frame.Backed (history ++ [Move.event client worker s below top])) below) :
    Stacked (Frame.Backed (history ++ [Move.event client worker s below top]))
      (p.frames ++ below) := by
  cases move with
  | receive reply role next => exact ⟨trivial, rest⟩
  | pass reply held => exact ⟨trivial, rest⟩
  | act taken => exact Frame.step_backed taken backed.1 rest

end Backing

namespace State

def Backed (history : List Event) (s : State W) : Prop :=
  ∀ t ∈ s.threads, Stacked (Frame.Backed history) t.stack

namespace Trace

variable {client : Client W} {workers : Nat} {world : W} {kept : List ObjectId}
  {threads : List (Code W)} {s : State W} {history : List Event}

theorem backed (trace : Trace client (State.start workers world kept threads) history s) :
    s.Backed history := by
  refine trace.keeps (fun history s => s.Backed history)
    (stacked_start trivial fun _ _ => trivial) ?_
  rintro before e ⟨s, s', thread, choice, trace, taken, rfl⟩ ih
  obtain ⟨acted⟩ := step_cases taken
  show s'.Backed (before ++ [s.event client thread])
  refine stacked_step acted ih (fun _ _ => Frame.Backed.mono) (fun stacked rest => ?_)
    fun _ _ => trivial
  rw [acted.event] at rest ⊢
  exact acted.move.backed stacked rest

theorem backed_of_place
    (trace : Trace client (State.start workers world kept threads) history s)
    {frame : Frame W} (place : Place history s frame) : frame.Backed history place.below := by
  have stacked := trace.backed place.thread place.mem
  rw [place.stack] at stacked
  exact stacked.below.1

theorem counted_of_taken
    (trace : Trace client (State.start workers world kept threads) history s) {f : FutureId}
    {byClient : Bool} (counted : .counted f byClient ∈ history) (taken : Taken history f) :
    .counted f true ∈ history := by
  obtain ⟨behalf, claimed⟩ := trace.claimed_of_counted counted
  obtain ⟨_, behalf', claimed'⟩ := taken
  have same := eq_of_tally_le_one (trace.claims_le f) claimed claimed'
    (by simp [Event.claims]) (by simp [Event.claims])
  cases same
  exact counted

section

variable (trace : Trace client (State.start workers world kept threads) history s)
  (idle : s.shared.inFlight = 0) {f : FutureId} {byClient : Bool}
  (counted : .counted f byClient ∈ history)

include trace counted

theorem claims_of_counted : 0 < tally (Event.claims f) history := by
  obtain ⟨behalf, claimed⟩ := trace.claimed_of_counted counted
  exact tally_pos_of_mem claimed (one_self f)

theorem completed_of_workless (work : weigh (Stake.work f) s.stakes = 0)
    (announces : weigh (Stake.announces f) s.stakes = 0) :
    ∃ outcome, Completed history s f outcome := by
  have claims := trace.claims_of_counted counted
  have law := trace.work_law f
  have announced := trace.announce_law f
  rw [tally_add, tally_add, tally_add] at law
  have notified : 0 < tally (Event.notifies f) history := by
    by_cases ignored : 0 < tally (Event.ignores f) history
    · exact trace.notifies_of_ignores f ignored
    · omega
  have returned : 0 < tally (Event.announces f) history := by omega
  obtain ⟨e, mem, pos⟩ := tally_pos returned
  exact trace.completed_of_announced notified (Event.of_announces pos ▸ mem)

include idle

theorem work_of_settle (unsettled : .settle f ∉ s.stakes) :
    weigh (Stake.work f) s.stakes = 0 := by
  by_contra left
  obtain ⟨stake, mem, pos⟩ := weigh_pos (Nat.pos_of_ne_zero left)
  have noShare := trace.not_share idle mem
  cases stake with
  | bound g byClient' =>
    obtain rfl : g = f := one_pos pos
    exact trace.not_bound_of_counted counted mem
  | settle g =>
    obtain rfl : g = f := one_pos pos
    exact unsettled mem
  | hand g | job g | unit g => cases noShare
  | _ => cases pos

theorem work_of_counted (untaken : ¬ Taken history f) :
    weigh (Stake.work f) s.stakes = 0 ∧ weigh (Stake.announces f) s.stakes = 0 := by
  have unfailed {outcome : Outcome} : ¬ Failed history f outcome :=
    trace.not_failed_of_claims untaken (trace.claims_of_counted counted)
  refine ⟨trace.work_of_settle idle counted fun mem => ?_, ?_⟩
  · obtain ⟨frame, ⟨outcome, rfl⟩, ⟨place⟩⟩ := trace.place mem rfl
    rcases trace.backed_of_place place with guarded | failed
    · exact trace.not_guarded idle place guarded
    · exact unfailed failed
  · by_contra left
    obtain ⟨stake, mem, pos⟩ := weigh_pos (Nat.pos_of_ne_zero left)
    cases stake with
    | announce g =>
      obtain rfl : g = f := one_pos pos
      obtain ⟨frame, rfl, ⟨place⟩⟩ := trace.place mem rfl
      rcases trace.backed_of_place place with guarded | ⟨outcome, failed⟩
      · exact trace.not_guarded idle place guarded
      · exact unfailed failed
    | _ => cases pos

/-- A unit that was counted is complete while no work is in flight, whoever placed it. -/
theorem completed_of_backed : ∃ outcome, Completed history s f outcome := by
  by_cases taken : Taken history f
  · exact trace.completed_of_counted idle (trace.counted_of_taken counted taken)
  obtain ⟨work, announces⟩ := trace.work_of_counted idle counted taken
  exact trace.completed_of_workless counted work announces

end

end Trace
end State
end Strands
