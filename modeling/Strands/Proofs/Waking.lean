/-
No wake-up is lost.

A worker that is about to rest looks at the queue and at the flag with the bell locked, and
rests without giving up the lock in between.  Whoever puts something on the queue, or raises
the flag, rings afterwards.  Either it rings before the worker has locked the bell, and then
the look finds what was done, or it rings once the worker is at rest, and the ringing rouses
somebody.

`Tolls` lists what a step does to the bell, and `Trace.attended` says from it who is at the
bell: the one that has locked it, and those that rest.  As long as the flag is down every worker
goes round and comes back to the queue (`Trace.goes_round`).  So when somebody has rung, a worker
is up that looks at the queue before it rests (`Trace.alert_of_ring`), and it stays up until the
queue is empty (`Trace.alert_of_actor`): `Trace.heeded` is the invariant, and
`no_wakeup_lost` says what it means for workers at rest.

Nothing here depends on rests that come to an end by themselves: they may, at any time, and
need not.
-/
import Strands.Proofs.BellLock
import Strands.Proofs.Shutting
import Strands.Settings
import Mathlib.Data.List.Nodup

namespace Strands

variable {W : Type}

namespace Frame

def isAtBell : Frame W → Bool
  | recheckQueue | recheckFlag | settleDown | rest => true
  | _ => false

/-- A worker has looked at the queue and does not look again before it rests. -/
def hasLooked : Frame W → Bool
  | recheckFlag | settleDown => true
  | _ => false

def goesRound : Frame W → Bool
  | poll | checkFlag | lockBell | recheckQueue | recheckFlag | settleDown | rest | getUp => true
  | _ => false

variable {frame : Frame W}

theorem isOnRound_of_isAtBell (atBell : frame.isAtBell = true) : frame.isOnRound = true := by
  cases frame <;> first | rfl | cases atBell

theorem isOnRound_of_goesRound (round : frame.goesRound = true) : frame.isOnRound = true := by
  cases frame <;> first | rfl | cases round

theorem isAtBell_of_keepsBell (keeps : frame.keepsBell = true) : frame.isAtBell = true := by
  cases frame <;> first | rfl | cases keeps

theorem keepsBell_of_hasLooked (looked : frame.hasLooked = true) : frame.keepsBell = true := by
  cases frame <;> first | rfl | cases looked

theorem not_isAtBell_of_isPatient (patient : frame.isPatient = true) :
    frame.isAtBell = false := by
  cases frame <;> first | rfl | cases patient

theorem unlooked_of_not_isAtBell (apart : frame.isAtBell = false) :
    frame.hasLooked = false ∧ frame ≠ .rest := by
  refine ⟨?_, ?_⟩
  · cases frame <;> first | rfl | cases apart
  · rintro rfl
    cases apart

end Frame

/-! ## What a step does to the bell -/

inductive Tolls (sight : Sight) (s : Shared W) (top : List (Frame W)) (p : Progress W) : Prop
  | keep : (∀ frame ∈ top, frame.movesBell = false) → p.shared.bell = s.bell →
      (∀ next ∈ p.frames, next.isAtBell = false) → Tolls sight s top p
  | ring (pick : Nat) : top = [.ring] → s.bell.owner = none →
      p = { shared := { s with bell := s.bell.ringOne pick } } → Tolls sight s top p
  | ringAll : top = [.ringAll] → s.bell.owner = none →
      p = { shared := { s with bell := s.bell.ringAll } } → Tolls sight s top p
  | lock : top = [.lockBell] → s.bell.owner = none →
      p = { shared := { s with bell := s.bell.lock sight.me }, frames := [.recheckQueue] } →
      Tolls sight s top p
  /-- A worker that has locked the bell finds the queue empty. -/
  | empty : top = [.recheckQueue] → s.queue.items = [] →
      p = { shared := s, frames := [.recheckFlag] } → Tolls sight s top p
  /-- It finds the flag down. -/
  | down : top = [.recheckFlag] → s.flag = false →
      p = { shared := s, frames := [.settleDown] } → Tolls sight s top p
  | settle : top = [.settleDown] →
      p = { shared := { s with bell := s.bell.rest sight.me }, frames := [.rest] } →
      Tolls sight s top p
  /-- It gives up the lock for any other reason. -/
  | back (frame : Frame W) : top = [frame] → frame.keepsBell = true →
      p.shared.bell.owner = none → p.shared.bell.resting = s.bell.resting →
      (∀ next ∈ p.frames, next.isAtBell = false) → Tolls sight s top p
  /-- A worker's rest is over. -/
  | stir : top = [.rest] → p.shared.bell.owner = s.bell.owner →
      p.shared.bell.resting = s.bell.resting.filter (· ≠ sight.me) → p.frames = [.getUp] →
      Tolls sight s top p
  | getUp : top = [.getUp] → s.bell.owner = none →
      p = { shared := { s with bell := s.bell.quiet }, frames := [.poll] } → Tolls sight s top p

section Steps

variable {client : Client W} {sight : Sight} {choice : Choice} {s : Shared W}

theorem Frame.LeadsTo.not_atBell {isOpen : Bool} {frame next : Frame W}
    (leads : frame.LeadsTo isOpen next) (aside : frame.movesBell = false) :
    next.isAtBell = false := by
  cases leads with
  | code leaves => cases next <;> first | rfl | cases leaves
  | _ => first | rfl | cases aside

theorem Frame.step_not_atBell {frame : Frame W} {p : Progress W}
    (aside : frame.movesBell = false) (taken : frame.step client sight choice s = some p) :
    ∀ next ∈ p.frames, next.isAtBell = false := fun next mem =>
  (step_leads taken next mem).not_atBell aside

theorem ringStep_eq (ring : Bell → Bell) {p : Progress W} (taken : ringStep s ring = some p) :
    s.bell.owner = none ∧ p = { shared := { s with bell := ring s.bell } } := by
  unfold ringStep at taken
  split at taken <;> cases taken
  exact ⟨‹_›, rfl⟩

theorem Frame.step_tolls {frame : Frame W} {p : Progress W}
    (taken : frame.step client sight choice s = some p) : Tolls sight s [frame] p := by
  cases aside : frame.movesBell with
  | false =>
    exact .keep (List.forall_mem_singleton.2 aside) (Frame.bell_step aside taken)
      (step_not_atBell aside taken)
  | true =>
    cases frame with
    | ring =>
      obtain ⟨free, eq⟩ := ringStep_eq (fun b => b.ringOne choice.pick) taken
      exact .ring choice.pick rfl free eq
    | ringAll =>
      obtain ⟨free, eq⟩ := ringStep_eq Bell.ringAll taken
      exact .ringAll rfl free eq
    | lockBell =>
      simp only [step, lockBellStep] at taken
      split at taken <;> cases taken
      exact .lock rfl ‹_› rfl
    | recheckQueue =>
      cases taken
      simp only [recheckQueueStep]
      split
      · exact .empty rfl (List.isEmpty_iff.1 ‹_›) rfl
      · exact .back _ rfl rfl rfl rfl (by simp [isAtBell])
    | recheckFlag =>
      cases taken
      simp only [recheckFlagStep]
      split
      · exact .back _ rfl rfl rfl rfl (by simp)
      · exact .down rfl (Bool.eq_false_iff.2 ‹_›) rfl
    | settleDown =>
      cases taken
      simp only [settleDownStep]
      split
      · exact .back _ rfl rfl rfl rfl (by simp [isAtBell])
      · exact .settle rfl rfl
    | rest =>
      simp only [step, restStep] at taken
      split at taken
      · split at taken <;> cases taken
        exact .stir rfl rfl rfl rfl
      · rename_i gone
        cases taken
        refine .stir rfl rfl (Eq.symm ?_) rfl
        rw [List.filter_eq_self]
        intro worker mem
        rw [decide_eq_true_eq]
        rintro rfl
        exact gone (List.contains_iff_mem.2 mem)
    | getUp =>
      simp only [step, getUpStep] at taken
      split at taken <;> cases taken
      exact .getUp rfl ‹_› rfl
    | _ => cases aside

theorem Move.tolls {top : List (Frame W)} {p : Progress W}
    (move : Move client sight choice s top p) : Tolls sight s top p := by
  cases move with
  | receive reply role next =>
    exact .keep (by simp [Frame.movesBell]) (by cases reply <;> rfl) (by simp [Frame.isAtBell])
  | pass reply held =>
    exact .keep (by simp [Frame.movesBell]) rfl (by simp [Frame.isAtBell])
  | act taken => exact Frame.step_tolls taken

theorem Move.top_of_isOnRound {top : List (Frame W)} {p : Progress W}
    (move : Move client sight choice s top p) {frame : Frame W} (mem : frame ∈ top)
    (on : frame.isOnRound = true) : top = [frame] := by
  cases move with
  | receive reply role next | pass reply held =>
    simp only [List.mem_cons, List.not_mem_nil, or_false] at mem
    rcases mem with rfl | rfl <;> cases on
  | act taken => rw [List.mem_singleton.1 mem]

/-- A worker on its round goes on with it, or has found the flag up. -/
theorem Frame.step_goesRound {frame : Frame W} {p : Progress W} (round : frame.goesRound = true)
    (taken : frame.step client sight choice s = some p) :
    s.flag = true ∨ ∃ next ∈ p.frames, next.goesRound = true := by
  have only (next : Frame W) (frames : p.frames = [next]) (round : next.goesRound = true) :
      s.flag = true ∨ ∃ next ∈ p.frames, next.goesRound = true :=
    .inr ⟨next, by simp [frames], round⟩
  cases frame with
  | poll =>
    cases taken
    simp only [pollStep]
    split
    · exact .inr ⟨.poll, by simp, rfl⟩
    · exact .inr ⟨.poll, by simp, rfl⟩
    · exact .inr ⟨.checkFlag, by simp, rfl⟩
  | checkFlag =>
    cases taken
    cases flag : s.flag with
    | true => exact .inl rfl
    | false => exact .inr ⟨.lockBell, by simp [checkFlagStep, flag], rfl⟩
  | recheckFlag =>
    cases taken
    cases flag : s.flag with
    | true => exact .inl rfl
    | false => exact .inr ⟨.settleDown, by simp [recheckFlagStep, flag], rfl⟩
  | lockBell | getUp =>
    simp only [step, lockBellStep, getUpStep] at taken
    split at taken <;> cases taken
    exact only _ rfl rfl
  | recheckQueue | settleDown =>
    cases taken
    simp only [recheckQueueStep, settleDownStep]
    split <;> exact .inr ⟨_, List.mem_cons_self, rfl⟩
  | rest =>
    simp only [step, restStep] at taken
    split at taken
    · split at taken <;> cases taken
      exact only _ rfl rfl
    · cases taken
      exact only _ rfl rfl
  | _ => cases round

end Steps

/-! ## What follows for the bell -/

namespace Tolls

variable {sight : Sight} {s : Shared W} {top : List (Frame W)} {p : Progress W}
  (tolls : Tolls sight s top p)

include tolls

theorem owner_other (mine : ∀ frame ∈ top, frame.keepsBell = true → s.bell.owner = some sight.me)
    {other : ThreadId} (different : other ≠ sight.me) (owner : s.bell.owner = some other) :
    p.shared.bell.owner = some other := by
  have not_mine (frame : Frame W) (eq : top = [frame]) : frame.keepsBell = false := by
    by_contra keeps
    have owns := mine frame (by simp [eq]) (Bool.not_eq_false _ ▸ keeps)
    rw [owns] at owner
    exact different (Option.some.inj owner).symm
  cases tolls with
  | keep _ bell => rw [bell, owner]
  | ring _ _ free | ringAll _ free | lock _ free | getUp _ free => rw [free] at owner; cases owner
  | empty eq | down eq | settle eq => cases not_mine _ eq
  | back frame eq keeps => rw [not_mine frame eq] at keeps; cases keeps
  | stir _ same => rw [same, owner]

theorem owner_new (mine : ∀ frame ∈ top, frame.keepsBell = true → s.bell.owner = some sight.me)
    {next : Frame W} (mem : next ∈ p.frames) (keeps : next.keepsBell = true) :
    p.shared.bell.owner = some sight.me := by
  cases tolls with
  | keep _ _ aside | back _ _ _ _ _ aside =>
    have apart := aside next mem
    rw [Frame.isAtBell_of_keepsBell keeps] at apart
    cases apart
  | ring _ _ _ eq | ringAll _ _ eq => subst eq; cases mem
  | lock _ _ eq => subst eq; rfl
  | empty top _ eq | down top _ eq =>
    subst eq
    exact mine _ (by rw [top]; exact List.mem_cons_self) rfl
  | settle _ eq | getUp _ _ eq =>
    subst eq
    rw [List.mem_singleton.1 mem] at keeps
    cases keeps
  | stir _ _ _ frames =>
    rw [frames, List.mem_singleton] at mem
    rw [mem] at keeps
    cases keeps

theorem resting_cases {worker : ThreadId} (rests : worker ∈ p.shared.bell.resting) :
    (worker = sight.me ∧ top = [.settleDown] ∧ p.frames = [.rest]) ∨
      worker ∈ s.bell.resting ∧ (worker = sight.me → top ≠ [.rest]) := by
  cases tolls with
  | keep aside bell =>
    refine .inr ⟨bell ▸ rests, fun _ eq => ?_⟩
    cases aside .rest (by simp [eq])
  | ring _ top _ eq => subst eq; exact .inr ⟨List.mem_of_mem_eraseIdx rests, by simp [top]⟩
  | ringAll _ _ eq => subst eq; cases rests
  | lock top _ eq | empty top _ eq | down top _ eq | getUp top _ eq =>
    subst eq
    exact .inr ⟨rests, by simp [top]⟩
  | settle top eq =>
    subst eq
    rcases List.mem_append.1 rests with earlier | now
    · exact .inr ⟨earlier, by simp [top]⟩
    · exact .inl ⟨List.mem_singleton.1 now, top, rfl⟩
  | back frame top keeps _ resting =>
    refine .inr ⟨resting ▸ rests, fun _ eq => ?_⟩
    rw [top] at eq
    cases eq
    cases keeps
  | stir _ _ resting =>
    rw [resting, List.mem_filter, decide_eq_true_eq] at rests
    exact .inr ⟨rests.1, fun own => absurd own rests.2⟩

theorem nodup_resting (once : s.bell.resting.Nodup)
    (up : top = [.settleDown] → sight.me ∉ s.bell.resting) : p.shared.bell.resting.Nodup := by
  cases tolls with
  | keep _ bell => rw [bell]; exact once
  | ring _ _ _ eq => subst eq; exact once.sublist (List.eraseIdx_sublist ..)
  | ringAll _ _ eq => subst eq; exact List.nodup_nil
  | lock _ _ eq | empty _ _ eq | down _ _ eq | getUp _ _ eq => subst eq; exact once
  | settle top eq =>
    subst eq
    exact once.append (List.nodup_singleton _) (List.disjoint_singleton.2 (up top))
  | back _ _ _ _ resting => rw [resting]; exact once
  | stir _ _ resting => rw [resting]; exact once.filter _

/-- A worker that has not looked since the queue was filled does not come to rest. -/
theorem unlooked (filled : s.queue.items ≠ []) (before : ∀ frame ∈ top, frame.hasLooked = false)
    {next : Frame W} (mem : next ∈ p.frames) : next.hasLooked = false ∧ next ≠ .rest := by
  cases tolls with
  | keep _ _ apart | back _ _ _ _ _ apart => exact Frame.unlooked_of_not_isAtBell (apart next mem)
  | ring _ _ _ eq | ringAll _ _ eq => subst eq; cases mem
  | lock _ _ eq | getUp _ _ eq => subst eq; rw [List.mem_singleton.1 mem]; exact ⟨rfl, by simp⟩
  | empty _ none => exact absurd none filled
  | down top | settle top => cases before _ (by rw [top]; exact List.mem_cons_self)
  | stir _ _ _ frames => rw [frames, List.mem_singleton] at mem; rw [mem]; exact ⟨rfl, by simp⟩

/-- While the flag is up nobody comes to settle down, and only those rest that were about to. -/
theorem settled (up : s.flag = true) {next : Frame W} (mem : next ∈ p.frames)
    (drowsy : next = .settleDown ∨ next = .rest) : top = [.settleDown] := by
  have atBell : next.isAtBell = true := by rcases drowsy with rfl | rfl <;> rfl
  cases tolls with
  | keep _ _ aside | back _ _ _ _ _ aside =>
    rw [aside next mem] at atBell
    cases atBell
  | ring _ _ _ eq | ringAll _ _ eq => subst eq; cases mem
  | lock _ _ eq | empty _ _ eq | getUp _ _ eq =>
    subst eq
    rw [List.mem_singleton.1 mem] at drowsy
    simp at drowsy
  | down _ down => rw [up] at down; cases down
  | settle top => exact top
  | stir _ _ _ frames =>
    rw [frames, List.mem_singleton] at mem
    rw [mem] at atBell
    cases atBell

end Tolls

theorem Bell.exists_roused {b : Bell} (once : b.resting.Nodup) (some : b.resting ≠ [])
    (pick : Nat) : ∃ worker ∈ b.resting, worker ∉ (b.ringOne pick).resting := by
  have bound : pick % b.resting.length < b.resting.length :=
    Nat.mod_lt _ (List.length_pos_iff.2 some)
  refine ⟨b.resting[pick % b.resting.length], List.getElem_mem bound, fun mem => ?_⟩
  obtain ⟨place, _, different, same⟩ := List.mem_eraseIdx_iff_getElem.1 mem
  exact different (once.getElem_inj_iff.1 same)

namespace State

/-- A worker rests, and nobody has roused it. -/
def Rests (s : State W) (worker : ThreadId) : Prop :=
  s.acting worker = some .rest ∧ worker ∈ s.shared.bell.resting

/-- A worker is up, and looks at the queue before it rests. -/
def Alert (s : State W) (worker : ThreadId) : Prop :=
  ∃ frame, s.acting worker = some frame ∧ frame.hasLooked = false ∧ ¬ s.Rests worker

/-- Everybody at the bell is where the bell has it. -/
structure Attended (s : State W) : Prop where
  keeper : ∀ thread frame, s.acting thread = some frame → frame.keepsBell = true →
    s.shared.bell.owner = some thread
  rests : ∀ thread ∈ s.shared.bell.resting, s.acting thread = some .rest
  once : s.shared.bell.resting.Nodup

variable {client : Client W} {workers : Nat} {world : W} {kept : List ObjectId}
  {threads : List (Code W)} {s s' : State W} {history : List Event} {thread : ThreadId}
  {choice : Choice}

theorem step_of_acting (acted : Acted client s s' thread choice) {frame : Frame W}
    (stands : s.acting thread = some frame) (notDeliver : ∀ reply, frame ≠ .deliver reply) :
    frame.step client (s.sight thread acted.actor.worker) choice s.shared =
      some acted.progress := by
  have move := acted.move
  rw [acted.top_of_acting stands notDeliver] at move
  exact move.step_of_single

/-- Who is at the bell after a step. -/
theorem Attended.step (trace : Trace client (State.start workers world kept threads) history s)
    (attended : s.Attended) (acted : Acted client s s' thread choice) : s'.Attended := by
  have acting := acted.acting
  have tolls := acted.move.tolls
  have mine (frame : Frame W) (mem : frame ∈ acted.top) (keeps : frame.keepsBell = true) :
      s.shared.bell.owner = some thread := by
    refine attended.keeper thread frame (acting.trans ?_) keeps
    rw [acted.move.top_of_isOnRound mem
      (Frame.isOnRound_of_isAtBell (Frame.isAtBell_of_keepsBell keeps))]
    rfl
  constructor
  · intro k frame stands keeps
    rw [acted.shared']
    by_cases own : k = thread
    · subst own
      rcases trace.acting_cases acted stands with new | patient
      · exact tolls.owner_new mine new keeps
      · have apart := Frame.not_isAtBell_of_isPatient patient
        rw [Frame.isAtBell_of_keepsBell keeps] at apart
        cases apart
    · rcases acted.acting_other own stands with earlier | ⟨code, rfl⟩
      · exact tolls.owner_other mine own (attended.keeper k frame earlier keeps)
      · cases keeps
  · intro k rests
    rw [acted.shared'] at rests
    rcases tolls.resting_cases rests with ⟨rfl, _, frames⟩ | ⟨earlier, up⟩
    · exact acted.acting'.trans (by rw [frames]; rfl)
    · have stands := attended.rests k earlier
      refine acted.acting_stays (fun own => up own ?_) stands
      exact acted.top_of_acting (own ▸ stands) (by simp)
  · rw [acted.shared']
    refine tolls.nodup_resting attended.once fun top rests => ?_
    have stands := acting.symm.trans (attended.rests thread rests)
    rw [top] at stands
    cases stands

namespace Trace

variable (trace : Trace client (State.start workers world kept threads) history s)

include trace

theorem attended : s.Attended := by
  refine trace.keeps (fun _ s => s.Attended) ?_ ?_
  · refine ⟨fun thread frame stands keeps => ?_, fun _ mem => (by cases mem), List.nodup_nil⟩
    obtain ⟨t, below, found, stack⟩ := exists_of_acting stands
    rcases stack_of_start (List.mem_of_getElem? found) with ⟨_, eq⟩ | ⟨_, code, _, eq⟩ <;>
      (rw [stack] at eq; cases eq; cases keeps)
  · intro before e moment ih
    obtain ⟨acted⟩ := step_cases moment.taken
    exact ih.step moment.trace acted

/-- While the flag is down every worker is on its round, or comes back to it. -/
theorem goes_round (down : s.shared.flag = false) :
    ∀ t ∈ s.threads, t.worker = true → ∃ frame ∈ t.stack, frame.goesRound = true := by
  refine trace.keeps (fun _ s => s.shared.flag = false →
    ∀ t ∈ s.threads, t.worker = true → ∃ frame ∈ t.stack, frame.goesRound = true) ?_ ?_ down
  · intro _ t mem staff
    rcases stack_of_start mem with ⟨_, stack⟩ | ⟨outside, _⟩
    · exact ⟨.poll, by simp [stack], rfl⟩
    · rw [outside] at staff
      cases staff
  · intro before e moment ih down t mem staff
    obtain ⟨acted⟩ := step_cases moment.taken
    have down₀ : moment.s.shared.flag = false := by
      by_contra up
      rw [flag_of_acted acted (by simpa using up)] at down
      cases down
    obtain ⟨k, found⟩ := List.getElem?_of_mem mem
    by_cases own : k = moment.thread
    · subst own
      rw [acted.actor_eq'] at found
      cases found
      obtain ⟨frame, inStack, round⟩ := ih down₀ acted.actor acted.actor_mem staff
      rw [acted.stack] at inStack
      rcases List.mem_append.1 inStack with acts | below
      · have top := acted.move.top_of_isOnRound acts (Frame.isOnRound_of_goesRound round)
        have move := acted.move
        rw [top] at move
        rcases Frame.step_goesRound round move.step_of_single with up | ⟨next, new, round⟩
        · rw [down₀] at up
          cases up
        · exact ⟨next, List.mem_append_left _ new, round⟩
      · exact ⟨frame, List.mem_append_right _ below, round⟩
    · rcases acted.other_eq own found with earlier | ⟨code, _, rfl⟩
      · exact ih down₀ t (List.mem_of_getElem? earlier) staff
      · cases staff

theorem lt_of_isOnRound {worker : ThreadId} {frame : Frame W}
    (stands : s.acting worker = some frame) (on : frame.isOnRound = true) : worker < workers := by
  obtain ⟨t, below, found, stack⟩ := exists_of_acting stands
  have staff := trace.worker_of_isOnRound t (List.mem_of_getElem? found) frame
    (by rw [stack]; exact List.mem_cons_self) on
  exact trace.isWorker_iff.1 ((isWorker_eq found).trans staff)

theorem exists_acting (down : s.shared.flag = false) {worker : ThreadId}
    (bound : worker < workers) : ∃ frame, s.acting worker = some frame := by
  have found := List.getElem?_eq_getElem (trace.lt_length_of_lt bound)
  have staff := (isWorker_eq found).symm.trans (trace.isWorker_iff.2 bound)
  obtain ⟨round, inStack, _⟩ := trace.goes_round down _ (List.mem_of_getElem? found) staff
  obtain ⟨frame, below, stack⟩ := List.exists_cons_of_ne_nil (List.ne_nil_of_mem inStack)
  exact ⟨frame, acting_eq found stack⟩

theorem down_of_filled (filled : s.shared.queue.items ≠ []) : s.shared.flag = false := by
  by_contra up
  exact filled (trace.items_of_closed (trace.shut.flag (Bool.not_eq_false _ ▸ up)))

theorem alert_of_free (down : s.shared.flag = false) (free : s.shared.bell.owner = none)
    {worker : ThreadId} (bound : worker < workers) (up : worker ∉ s.shared.bell.resting) :
    s.Alert worker := by
  obtain ⟨frame, stands⟩ := trace.exists_acting down bound
  refine ⟨frame, stands, ?_, fun rests => up rests.2⟩
  by_contra looked
  have keeps := Frame.keepsBell_of_hasLooked (Bool.not_eq_false _ ▸ looked)
  rw [trace.attended.keeper worker frame stands keeps] at free
  cases free

end Trace

theorem rests_of_acted (acted : Acted client s s' thread choice) {worker : ThreadId}
    (different : worker ≠ thread) (rests : s'.Rests worker) : s.Rests worker := by
  obtain ⟨stands, resting⟩ := rests
  rw [acted.shared'] at resting
  refine ⟨(acted.acting_other different stands).resolve_right (fun ⟨_, eq⟩ => by cases eq), ?_⟩
  rcases acted.move.tolls.resting_cases resting with ⟨own, _⟩ | ⟨earlier, _⟩
  · exact absurd own different
  · exact earlier

theorem Alert.stays (acted : Acted client s s' thread choice) {worker : ThreadId}
    (different : worker ≠ thread) (alert : s.Alert worker) : s'.Alert worker := by
  obtain ⟨frame, stands, unlooked, up⟩ := alert
  exact ⟨frame, acted.acting_stays different stands, unlooked,
    fun rests => up (rests_of_acted acted different rests)⟩

section

variable (trace : Trace client (State.start workers world kept threads) history s)
  (acted : Acted client s s' thread choice) {history' : List Event}
  (trace' : Trace client (State.start workers world kept threads) history' s')

include trace acted trace'

/-- Ringing leaves a worker alert, unless the flag is up: the one that it rouses, or any, if
none rests. -/
theorem Trace.alert_of_ring (pool : 0 < workers) (stands : s.acting thread = some .ring)
    (down : s.shared.flag = false) : ∃ worker < workers, s'.Alert worker := by
  obtain ⟨free, eq⟩ :=
    ringStep_eq (fun b => b.ringOne choice.pick) (step_of_acting acted stands (by simp))
  have shared := acted.shared'
  rw [eq] at shared
  have attended := trace.attended
  have up : ∃ worker < workers, worker ∉ (s.shared.bell.ringOne choice.pick).resting := by
    by_cases none : s.shared.bell.resting = []
    · exact ⟨0, pool, by simp [Bell.ringOne, none]⟩
    · obtain ⟨worker, rests, roused⟩ := Bell.exists_roused attended.once none choice.pick
      exact ⟨worker, trace.lt_of_isOnRound (attended.rests worker rests) rfl, roused⟩
  obtain ⟨worker, bound, up⟩ := up
  exact ⟨worker, bound, trace'.alert_of_free (by rw [shared, down]) (by rw [shared]; exact free)
    bound (by rw [shared]; exact up)⟩

theorem Trace.alert_of_actor (bound : thread < workers) {frame : Frame W}
    (stands : s.acting thread = some frame) (unlooked : frame.hasLooked = false)
    (filled : s.shared.queue.items ≠ []) (down : s'.shared.flag = false) : s'.Alert thread := by
  obtain ⟨next, stands'⟩ := trace'.exists_acting down bound
  have goes : next.hasLooked = false ∧ next ≠ .rest := by
    rcases trace.acting_cases acted stands' with new | patient
    · refine acted.move.tolls.unlooked filled (fun first mem => ?_) new
      by_contra looked
      have keeps := Frame.keepsBell_of_hasLooked (Bool.not_eq_false _ ▸ looked)
      have top := acted.move.top_of_isOnRound mem
        (Frame.isOnRound_of_isAtBell (Frame.isAtBell_of_keepsBell keeps))
      have same := acted.acting.symm.trans stands
      rw [top] at same
      cases same
      exact looked unlooked
    · exact Frame.unlooked_of_not_isAtBell (Frame.not_isAtBell_of_isPatient patient)
  refine ⟨next, stands', goes.1, fun rests => goes.2 ?_⟩
  exact Option.some.inj (stands'.symm.trans rests.1)

end

/-! ## After the flag -/

/-- Whoever raises the flag rings next. -/
def RingsNext (below : List (Frame W)) (frame : Frame W) : Prop :=
  frame = .raiseFlag → ∃ rest, below = .ringAll :: rest

theorem ringsNext_append {frames below : List (Frame W)} (none : Unshutting frames)
    (rest : Stacked RingsNext below) : Stacked RingsNext (frames ++ below) := by
  induction frames with
  | nil => exact rest
  | cons frame others ih =>
    obtain ⟨here, others'⟩ := unshutting_cons.1 none
    exact ⟨fun raises => (by rw [raises] at here; cases here), ih others'⟩

theorem Trace.ringsNext
    (trace : Trace client (State.start workers world kept threads) history s) :
    ∀ t ∈ s.threads, Stacked RingsNext t.stack := by
  refine trace.keeps (fun _ s => ∀ t ∈ s.threads, Stacked RingsNext t.stack)
    (stacked_start (by simp [RingsNext]) (by simp [RingsNext])) ?_
  intro before e moment ih
  obtain ⟨acted⟩ := step_cases moment.taken
  refine stacked_step acted ih (fun _ _ h => h) (fun _ rest => ?_) (by simp [RingsNext])
  cases acted.move.shuts with
  | keep _ _ aloof => exact ringsNext_append aloof.frames rest
  | skip _ _ p | raise _ p | unlock _ p => rw [p]; exact rest
  | ring _ _ _ none => rw [none]; exact rest
  | begin _ _ p =>
    rw [p]
    dsimp only
    split <;> exact ⟨by simp [RingsNext], rest⟩
  | idle _ _ p | lock _ _ p | wait _ _ _ _ p => rw [p]; exact ⟨by simp [RingsNext], rest⟩
  | close _ p =>
    rw [p, closeStep, List.append_assoc]
    exact ringsNext_append (Item.unshutting_refuse_all _)
      ⟨fun _ => ⟨_, rfl⟩, by simp [RingsNext], by simp [RingsNext], rest⟩

/-! ## The invariant -/

/-- Somebody rings, or is up to see, while there is something to see. -/
structure Heeded (workers : Nat) (s : State W) : Prop where
  queue : s.shared.queue.items ≠ [] →
    (∃ worker < workers, s.Alert worker) ∨ ∃ thread, s.acting thread = some .ring
  flag : s.shared.flag = true → ∀ worker, s.Rests worker ∨ s.acting worker = some .settleDown →
    ∃ thread, s.acting thread = some .ringAll

theorem ring_of_pushed (acted : Acted client s s' thread choice) {frame : Frame W}
    (top : acted.top = [frame]) {rest : List (Frame W)}
    (pushes : ∀ sight : Sight, ∃ p, frame.step client sight choice s.shared = some p ∧
      p.frames = .ring :: rest) : s'.acting thread = some .ring := by
  have move := acted.move
  rw [top] at move
  obtain ⟨p, taken, frames⟩ := pushes (s.sight thread acted.actor.worker)
  cases taken.symm.trans move.step_of_single
  rw [acted.acting', frames]
  rfl

/-- While the flag is up, whoever rests was at rest before or about to be. -/
theorem Trace.drowsy_of_acted
    (trace : Trace client (State.start workers world kept threads) history s)
    (acted : Acted client s s' thread choice) (up : s.shared.flag = true) {worker : ThreadId}
    (drowsy : s'.Rests worker ∨ s'.acting worker = some .settleDown) :
    s.Rests worker ∨ s.acting worker = some .settleDown := by
  by_cases own : worker = thread
  · subst own
    have settles (frame : Frame W) (stands : s'.acting worker = some frame)
        (drowsy : frame = .settleDown ∨ frame = .rest) : s.acting worker = some .settleDown := by
      rcases trace.acting_cases acted stands with new | patient
      · rw [acted.acting, acted.move.tolls.settled up new drowsy]
        rfl
      · rcases drowsy with rfl | rfl <;> cases patient
    rcases drowsy with rests | settling
    · exact .inr (settles _ rests.1 (.inr rfl))
    · exact .inr (settles _ settling (.inl rfl))
  · refine drowsy.imp (rests_of_acted acted own) fun settling => ?_
    exact (acted.acting_other own settling).resolve_right fun ⟨_, eq⟩ => by cases eq

section

variable (trace : Trace client (State.start workers world kept threads) history s)
  (acted : Acted client s s' thread choice) {history' : List Event}
  (trace' : Trace client (State.start workers world kept threads) history' s')

include trace acted trace'

theorem Heeded.queue_of_waiting (pool : 0 < workers) (heeded : s.Heeded workers)
    (waiting : s.shared.queue.items ≠ []) (down : s'.shared.flag = false) :
    (∃ worker < workers, s'.Alert worker) ∨ ∃ thread, s'.acting thread = some .ring := by
  rcases heeded.queue waiting with ⟨worker, bound, alert⟩ | ⟨k, stands⟩
  · by_cases own : worker = thread
    · subst own
      obtain ⟨frame, stands, unlooked, _⟩ := alert
      exact .inl ⟨worker, bound,
        trace.alert_of_actor acted trace' bound stands unlooked waiting down⟩
    · exact .inl ⟨worker, bound, alert.stays acted own⟩
  · by_cases own : k = thread
    · subst own
      exact .inl (trace.alert_of_ring acted trace' pool stands (trace.down_of_filled waiting))
    · exact .inr ⟨k, acted.acting_stays own stands⟩

theorem Heeded.queue_step (pool : 0 < workers) (heeded : s.Heeded workers)
    (filled : s'.shared.queue.items ≠ []) :
    (∃ worker < workers, s'.Alert worker) ∨ ∃ thread, s'.acting thread = some .ring := by
  have down := trace'.down_of_filled filled
  have kept (waiting : s.shared.queue.items ≠ []) :=
    heeded.queue_of_waiting trace acted trace' pool waiting down
  rw [acted.shared'] at filled
  cases acted.move.feeds with
  | keep queue | send _ _ _ _ queue => exact kept (by rwa [← queue])
  | start job _ popped | fetch group _ popped =>
    exact kept (by rw [RunQueue.items_of_pop popped]; exact List.cons_ne_nil _ _)
  | push job asker top pushed =>
    exact .inr ⟨thread, ring_of_pushed acted top fun _ =>
      ⟨_, rfl, by simp only [pushStep, pushed]; rfl⟩⟩
  | submit group asker top pushed =>
    exact .inr ⟨thread, ring_of_pushed acted top fun _ =>
      ⟨_, rfl, by simp only [submitStep, pushed]; rfl⟩⟩
  | close _ queue =>
    rw [queue] at filled
    exact absurd rfl filled

/-- Whoever has raised the flag rings next. -/
theorem Heeded.flag_step (heeded : s.Heeded workers) (up : s'.shared.flag = true)
    {worker : ThreadId} (drowsy : s'.Rests worker ∨ s'.acting worker = some .settleDown) :
    ∃ thread, s'.acting thread = some .ringAll := by
  by_cases already : s.shared.flag = true
  · obtain ⟨k, stands⟩ := heeded.flag already worker (trace.drowsy_of_acted acted already drowsy)
    by_cases own : k = thread
    · -- Once all were roused nobody rests or is about to.
      subst own
      obtain ⟨free, eq⟩ := ringStep_eq Bell.ringAll (step_of_acting acted stands (by simp))
      have shared := acted.shared'
      rw [eq] at shared
      rcases drowsy with ⟨_, rests⟩ | settling
      · rw [shared] at rests
        cases rests
      · have owner := trace'.attended.keeper worker _ settling rfl
        rw [shared] at owner
        cases free.symm.trans owner
    · exact ⟨k, acted.acting_stays own stands⟩
  · refine ⟨thread, ?_⟩
    rw [acted.shared'] at up
    cases acted.move.shuts with
    | keep _ _ aloof => rw [aloof.flag] at up; exact absurd up already
    | ring _ flag => rw [flag] at up; exact absurd up already
    | skip _ _ p | begin _ _ p | idle _ _ p | close _ p | lock _ _ p | wait _ _ _ _ p
    | unlock _ p =>
      rw [p] at up
      exact absurd up already
    | raise top p =>
      have stacked := trace.ringsNext acted.actor acted.actor_mem
      rw [acted.stack, top] at stacked
      obtain ⟨rest, below⟩ : ∃ rest, acted.below = .ringAll :: rest := stacked.1 rfl
      rw [acted.acting', p, below]
      rfl

end

theorem Trace.heeded (pool : 0 < workers)
    (trace : Trace client (State.start workers world kept threads) history s) :
    s.Heeded workers := by
  refine trace.keeps (fun _ s => s.Heeded workers)
    ⟨fun filled => absurd rfl filled, fun up => absurd up Bool.false_ne_true⟩ ?_
  intro before e moment ih
  obtain ⟨acted⟩ := step_cases moment.taken
  exact ⟨ih.queue_step moment.trace acted moment.trace' pool,
    fun up _ => ih.flag_step moment.trace acted moment.trace' up⟩

/-- While all workers rest, whoever is about to ring can, and a worker is up then. -/
theorem Trace.ring_rouses (pool : 0 < workers)
    (trace : Trace client (State.start workers world kept threads) history s)
    (stands : s.acting thread = some .ring) (all : ∀ worker < workers, s.Rests worker)
    (choice : Choice) : ∃ s', s.step client thread choice = some s' ∧
      ∃ worker < workers, ¬ s'.Rests worker := by
  have free : s.shared.bell.owner = none := by
    by_contra locked
    obtain ⟨k, owner⟩ := Option.ne_none_iff_exists'.1 locked
    obtain ⟨frame, looks, keeps⟩ := trace.tended k owner
    have on := Frame.isOnRound_of_isAtBell (Frame.isAtBell_of_keepsBell keeps)
    have rests := (all k (trace.lt_of_isOnRound looks on)).1
    cases looks.symm.trans rests
    cases keeps
  obtain ⟨t, below, found, stack⟩ := exists_of_acting stands
  have rung (sight : Sight) : Frame.ring.step client sight choice s.shared =
      some { shared := { s.shared with bell := s.shared.bell.ringOne choice.pick } } := by
    simp only [Frame.step, ringStep, free]
  have attended := trace.attended
  obtain ⟨worker, rests, roused⟩ :=
    Bell.exists_roused attended.once (List.ne_nil_of_mem (all 0 pool).2) choice.pick
  exact ⟨_, step_of_frame found stack (by simp) (rung _), worker,
    trace.lt_of_isOnRound (attended.rests worker rests) rfl, fun rests' => roused rests'.2⟩

/-- No wake-up is lost.  In every state that any interleaving leads to, whether or not rests
come to an end by themselves: while there is something on the queue, some worker is up that
looks at the queue before it rests, or somebody is about to ring.  While the flag is up and a
worker rests that nobody has roused, somebody is about to ring for all.  And while all workers
rest nothing keeps whoever is about to ring from it, and then some worker is roused. -/
theorem no_wakeup_lost {settings : Settings}
    (reachable : Reachable client (State.start settings.workers world kept threads) s) :
    (s.shared.queue.items ≠ [] →
      (∃ worker < settings.workers, s.Alert worker) ∨ ∃ thread, s.acting thread = some .ring) ∧
    (s.shared.flag = true → ∀ worker, s.Rests worker →
      ∃ thread, s.acting thread = some .ringAll) ∧
    ∀ thread, s.acting thread = some .ring → (∀ worker < settings.workers, s.Rests worker) →
      ∀ choice, ∃ s', s.step client thread choice = some s' ∧
        ∃ worker < settings.workers, ¬ s'.Rests worker := by
  obtain ⟨history, trace⟩ := reachable.exists_trace
  have pool : 0 < settings.workers := Nat.lt_of_lt_of_le Nat.one_pos (Nat.le_max_right _ _)
  have heeded := trace.heeded pool
  exact ⟨heeded.queue, fun up worker rests => heeded.flag up worker (.inl rests),
    fun _ stands all choice => trace.ring_rouses pool stands all choice⟩

/-- Two workers rest by the time the client acts. -/
def afterRest (code : Code Unit) (steps : Nat) : State Unit :=
  ((State.start (Settings.default (some 2)).workers () [] [code]).replay
    (Sample.client Sample.value)
    (List.replicate 6 0 ++ List.replicate 6 1 ++ List.replicate steps 2)).2

/-- A unit is on the queue and nobody has rung yet. -/
def latePush : State Unit :=
  afterRest (Sample.create fun f => Sample.schedule .free f Sample.done) 6

/-- The flag is up and nobody has rung yet. -/
def lateFlag : State Unit := afterRest (.ask .shutdown fun _ => Sample.done) 5

theorem afterRest_reachable (code : Code Unit) (steps : Nat) :
    Reachable (Sample.client Sample.value)
      (State.start (Settings.default (some 2)).workers () [] [code]) (afterRest code steps) :=
  (trace_replay _ _ _).reachable

/-- Between a push, or the flag, and the ringing both workers rest, and they are not left to. -/
theorem no_wakeup_lost_bothRest :
    (latePush.shared.queue.items ≠ [] ∧ (∀ worker < 2, latePush.Rests worker) ∧
      ∃ thread, latePush.acting thread = some .ring ∧ ∀ choice, ∃ s',
        latePush.step (Sample.client Sample.value) thread choice = some s' ∧
        ∃ worker < 2, ¬ s'.Rests worker) ∧
    lateFlag.shared.flag = true ∧ (∀ worker < 2, lateFlag.Rests worker) ∧
      ∃ thread, lateFlag.acting thread = some .ringAll := by
  have filled : latePush.shared.queue.items ≠ [] := List.cons_ne_nil _ _
  have pushRests : ∀ worker < 2, latePush.Rests worker
    | 0, _ => ⟨rfl, by decide +kernel⟩
    | 1, _ => ⟨rfl, by decide +kernel⟩
  have up : lateFlag.shared.flag = true := rfl
  have flagRests : ∀ worker < 2, lateFlag.Rests worker
    | 0, _ => ⟨rfl, by decide +kernel⟩
    | 1, _ => ⟨rfl, by decide +kernel⟩
  obtain ⟨queue, _, rouses⟩ := no_wakeup_lost (afterRest_reachable _ _ : Reachable _ _ latePush)
  obtain ⟨_, flag, _⟩ := no_wakeup_lost (afterRest_reachable _ _ : Reachable _ _ lateFlag)
  refine ⟨⟨filled, pushRests, ?_⟩, up, flagRests, flag up 0 (flagRests 0 Nat.two_pos)⟩
  rcases queue filled with ⟨worker, bound, _, _, _, alert⟩ | ⟨thread, stands⟩
  · exact absurd (pushRests worker bound) alert
  · exact ⟨thread, stands, rouses thread stands pushRests⟩

end State
end Strands
