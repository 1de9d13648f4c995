/-
Who called for a graceful stop.

A frame of a stop (`Frame.isStops`) comes from a frame of the same stop, or from code that asks
for one: `Frame.step_leaves`.  So every frame of a stop, on whichever stack, stands on what called
for it, and the stop has not reported since: `Log.caller`.  Once it has reported, its notes are
those of an account of all that it did: `Log.account_of_reported`.
-/
import Strands.Proofs.Stopping

namespace Strands

variable {W : Type}

/-! ## Frames of a stop -/

@[simp] def Role.isStops : Role W → Bool
  | handler _ | query _ (.listener _) => true
  | _ => false

@[simp] def Frame.isStops : Frame W → Bool
  | running role _ | waiting role _ => role.isStops
  | takeHandlers _ | readListeners _ | runHandlers _ | askListeners _ | query _ (.listener _)
  | openStop _ _ _ _ | awaitListeners _ => true
  | _ => false

def Request.isStop : Request → Bool
  | gracefulStop | stop => true
  | _ => false

def Unstopping (frames : List (Frame W)) : Prop := ∀ frame ∈ frames, frame.isStops = false

@[simp] theorem unstopping_nil : Unstopping ([] : List (Frame W)) := fun _ mem => by cases mem

@[simp] theorem unstopping_cons {frame : Frame W} {frames : List (Frame W)} :
    Unstopping (frame :: frames) ↔ frame.isStops = false ∧ Unstopping frames :=
  List.forall_mem_cons

@[simp] theorem unstopping_append {a b : List (Frame W)} :
    Unstopping (a ++ b) ↔ Unstopping a ∧ Unstopping b := List.forall_mem_append

section Frames

@[simp] theorem Next.unstopping_resume (next : Next W) (direct : Bool)
    (result : Except DomainError (List Value)) : Unstopping (next.resume direct result) := by
  cases next with
  | place call => cases result <;> simp [resume]
  | client continuation => cases direct <;> simp [resume]

@[simp] theorem Next.unstopping_abandon (next : Next W) (panic : Panic) :
    Unstopping (next.abandon panic) := by
  cases next <;> simp [abandon]

@[simp] theorem Next.unstopping_takenUp (next : Next W) : Unstopping next.takenUp := by
  cases next <;> simp [takenUp]

@[simp] theorem Invocation.unstopping_dispatch (invocation : Invocation) (mode : Mode)
    (callback : Outcome → Code W) : Unstopping (invocation.dispatch mode callback) := by
  unfold dispatch
  split
  · cases invocation.metadata <;> simp
  · simp [reject]
  · simp [reject]

end Frames

/-! ## What a step leaves -/

/-- What the step of a frame leaves of stops: a frame at the bottom that is of the stop that the
frame was of, or a new stop on top of the code that asked for it. -/
inductive Frame.Leaves (frame : Frame W) : List (Frame W) → Prop
  | none {frames : List (Frame W)} : Unstopping frames → Leaves frame frames
  | same (above : List (Frame W)) {base : Frame W} :
      Unstopping above → base.isStops = frame.isStops → Leaves frame (above ++ [base])
  | called {role : Role W} {request : Request} {next : Reply → Code W} (shutsDown : Bool) :
      frame = .running role (.ask request next) → request.isStop = true →
      Leaves frame [.takeHandlers shutsDown, .waiting role next]

namespace Frame.Leaves

variable {frame base : Frame W} {above below : List (Frame W)}

theorem single (same : base.isStops = frame.isStops) : Leaves frame [base] :=
  .same [] unstopping_nil same

/-- A frame of a stop that a step leaves is at the bottom, or was called for by the step. -/
theorem cases_of_isStops (leaves : frame.Leaves (above ++ base :: below))
    (stops : base.isStops = true) : (frame.isStops = true ∧ below = []) ∨
      ∃ shutsDown role request next, frame = .running role (.ask request next) ∧
        request.isStop = true ∧
        (above = [] ∧ base = .takeHandlers shutsDown ∧ below = [.waiting role next] ∨
          above = [.takeHandlers shutsDown] ∧ base = .waiting role next ∧ below = []) := by
  generalize eq : above ++ base :: below = frames at leaves
  cases leaves with
  | none plain =>
    subst eq
    rw [plain base (by simp)] at stops
    cases stops
  | @same above' base' plain own =>
    rcases List.eq_nil_or_concat below with rfl | ⟨rest, last, rfl⟩
    · obtain ⟨rfl, lasts⟩ := List.append_inj' eq rfl
      obtain rfl := (List.cons.inj lasts).1
      exact .inl ⟨own.symm.trans stops, rfl⟩
    · have split : (above ++ base :: rest) ++ [last] = above' ++ [base'] := by simpa using eq
      obtain ⟨rfl, _⟩ := List.append_inj' split rfl
      rw [plain base (by simp)] at stops
      cases stops
  | @called role request next shutsDown asks stop =>
    refine .inr ⟨shutsDown, role, request, next, asks, stop, ?_⟩
    cases above with
    | nil =>
      cases eq
      exact .inl ⟨rfl, rfl, rfl⟩
    | cons first above =>
      obtain ⟨rfl, rest⟩ := List.cons.inj eq
      obtain ⟨rfl, single⟩ := List.append_eq_singleton_iff.1 rest |>.resolve_right (by simp)
      cases single
      exact .inr ⟨rfl, rfl, rfl⟩

end Frame.Leaves

section Steps

variable {client : Client W} {sight : Sight} {choice : Choice} {s : Shared W} {p : Progress W}

theorem Site.answered_leaves (object : ObjectId) (type : ObjectType W) (code : Code W)
    (site : Site W) : (Frame.running (.query object site) code).Leaves
      (site.answered s object type).frames := by
  cases site with
  | omitted lookup =>
    simp only [answered]
    split
    · exact .none (by simp)
    · exact .none (by simp)
    · exact .single rfl
  | listener stopping =>
    simp only [answered]
    split <;> exact .single rfl
  | expressions lookup pending => exact .none (by simp [answered])
  | _ => exact .single rfl

theorem Role.ended_leaves (role : Role W) (code : Code W) (result : Except Panic Outcome) :
    (Frame.running role code).Leaves (role.ended client s result).frames := by
  cases role with
  | query object site =>
    cases result with
    | ok outcome => exact Site.answered_leaves object _ code site
    | error panic =>
      cases site with
      | listener stopping => exact .single rfl
      | _ => exact .none (by simp [ended, Site.panicked])
  | handler stopping => exact .single rfl
  | continuation => cases result <;> exact .none (by simp [ended])
  | call receiver args => cases result <;> exact .none (by simp [ended])
  | _ => exact .none (by simp [ended])

theorem Request.serve_unstopping (request : Request) (other : request.isStop = false) :
    Unstopping (request.serve client sight s).frames := by
  cases request with
  | view future | wait future | waitAtMost future milliseconds | takeHandle =>
    simp only [serve]
    split <;> simp
  | gracefulStop | stop => cases other
  | _ => simp [serve]

theorem Code.step_leaves {late : Bool} {role : Role W} {code : Code W}
    (taken : code.step client sight late s role = some p) :
    (Frame.running role code).Leaves p.frames := by
  cases code with
  | finish outcome | panic payload => cases taken; exact role.ended_leaves _ _
  | await ready next =>
    simp only [step] at taken
    split at taken <;> cases taken
    exact .single rfl
  | awaitAtMost milliseconds ready next =>
    simp only [step] at taken
    split at taken
    · cases taken
      exact .single rfl
    · split at taken <;> cases taken
      exact .single rfl
  | ask request next =>
    cases taken
    cases stop : request.isStop with
    | false => exact .same _ (request.serve_unstopping stop) rfl
    | true => cases request <;> cases stop <;> exact .called _ rfl rfl
  | schedule place work future next =>
    cases taken
    refine .same [_, _] ?_ rfl
    cases had : s.hasHandle future <;> simp
  | invoke mode invocation callback next =>
    cases taken
    exact .same _ (invocation.unstopping_dispatch mode callback) rfl
  | create spec callback next =>
    cases taken
    exact .same [_] (by simp) rfl
  | resolve receiver method args parent continuation next =>
    cases taken
    exact .same [_, _] (by simp) rfl
  | _ => cases taken; exact .single rfl

theorem Frame.LeadsTo.unstopping {isOpen : Bool} {frame next : Frame W}
    (leads : frame.LeadsTo isOpen next) (other : frame.isStops = false)
    (idle : ∀ role code, frame ≠ .running role code) : next.isStops = false := by
  cases leads with
  | code => exact absurd rfl (idle _ _)
  | @ask object site code => cases site <;> first | rfl | cases other
  | _ => first | rfl | cases other

theorem Frame.step_unstopping {frame : Frame W} (other : frame.isStops = false)
    (idle : ∀ role code, frame ≠ .running role code)
    (taken : frame.step client sight choice s = some p) : Unstopping p.frames := fun next mem =>
  (step_leads taken next mem).unstopping other idle

theorem Frame.step_leaves {frame : Frame W} (taken : frame.step client sight choice s = some p) :
    frame.Leaves p.frames := by
  cases frame with
  | running role code => exact Code.step_leaves taken
  | waiting role next => cases taken
  | query object site => cases taken; cases site <;> exact .single rfl
  | takeHandlers shutsDown | readListeners stopping => cases taken; exact .single rfl
  | runHandlers stopping =>
    cases taken
    simp only [runHandlersStep]
    split <;> exact .single rfl
  | askListeners stopping =>
    cases taken
    simp only [askListenersStep]
    split <;> exact .single rfl
  | openStop listener lane metadata stopping =>
    cases taken
    exact .same [_] (by simp) rfl
  | awaitListeners stopping =>
    simp only [step, awaitListenersStep] at taken
    split at taken
    · cases taken
      cases stopping.shutsDown <;> exact .none (by simp)
    · split at taken <;> cases taken
      exact .single rfl
  | _ => exact .none (step_unstopping rfl (fun _ _ h => by cases h) taken)

def Note.MadeBy (s : Shared W) (frame : Frame W) : Note W → Prop
  | took handlers => (∃ shutsDown, frame = .takeHandlers shutsDown) ∧ s.registry.handlers = handlers
  | began index handler => ∃ stopping rest, frame = .runHandlers stopping ∧
      stopping.handlers = handler :: rest ∧ stopping.report.handlersRun = index
  | reported _ => ∃ stopping, frame = .awaitListeners stopping ∧ stopping.asked = []
  | _ => True

theorem Frame.madeBy_of_note {frame : Frame W} {note : Note W}
    (noted : frame.note client s = some note) : note.MadeBy s frame := by
  cases frame with
  | takeHandlers shutsDown =>
    cases noted
    exact ⟨⟨shutsDown, rfl⟩, rfl⟩
  | runHandlers stopping =>
    obtain ⟨handler, head, rfl⟩ := Option.map_eq_some_iff.1 noted
    obtain ⟨rest, all⟩ := List.head?_eq_some_iff.1 head
    exact ⟨stopping, rest, rfl, all, rfl⟩
  | awaitListeners stopping =>
    simp only [Frame.note] at noted
    split at noted
    · rename_i none
      cases noted
      exact ⟨stopping, rfl, none⟩
    · split at noted <;> cases noted
      exact trivial
  | running role code =>
    have answers := Frame.answers_of_running noted
    cases note <;> first | exact trivial | cases answers
  | query object site => cases site <;> cases noted; exact trivial
  | _ => cases noted <;> exact trivial

theorem Frame.unstopping_of_reported {frame : Frame W} {report : StopReport}
    (noted : frame.note client s = some (.reported report))
    (taken : frame.step client sight choice s = some p) : Unstopping p.frames := by
  obtain ⟨stopping, rfl, none⟩ := Frame.madeBy_of_note noted
  simp only [step, awaitListenersStep, none] at taken
  cases taken
  cases stopping.shutsDown <;> simp

end Steps

/-! ## What a stop stands on -/

structure StopCall (log : List (Beat W)) where
  before : List (Beat W)
  beat : Beat W
  after : List (Beat W)
  log_eq : log = before ++ beat :: after
  role : Role W
  request : Request
  next : Reply → Code W
  rest : List (Frame W)
  stack : beat.s.stackOf beat.thread = .running role (.ask request next) :: rest
  asks : request.isStop = true

namespace StopCall

variable {client : Client W} {log : List (Beat W)}

def below (call : StopCall log) : List (Frame W) := .waiting call.role call.next :: call.rest

def Returned (client : Client W) (call : StopCall log) : Prop :=
  ∃ report, .reported report ∈ notesOf client call.beat.thread call.below.length call.after

def extend (call : StopCall log) (more : List (Beat W)) : StopCall (log ++ more) :=
  { call with
    after := call.after ++ more
    log_eq := (congrArg (· ++ more) call.log_eq).trans (List.append_assoc _ _ _) }

theorem not_returned_extend {call : StopCall log} (unreturned : ¬ call.Returned client)
    {beat : Beat W} (quiet : ∀ report,
      beat.note client call.beat.thread call.below.length ≠ some (.reported report)) :
    ¬ (call.extend [beat]).Returned client := by
  rintro ⟨report, mem⟩
  rw [extend, notesOf_append, notesOf_one] at mem
  rcases List.mem_append.1 mem with earlier | now
  · exact unreturned ⟨report, earlier⟩
  · exact quiet report (Option.mem_toList.1 now)

end StopCall

/-- A frame of a stop that a move leaves is at the bottom, where a frame of the same stop was
which did not report, or is on what the move called for a stop from. -/
theorem Move.base_of_isStops {client : Client W} {sight : Sight} {choice : Choice}
    {shared : Shared W} {top : List (Frame W)} {p : Progress W} (move : Move client sight choice shared top p)
    {above more : List (Frame W)} {base : Frame W} (frames : p.frames = above ++ base :: more)
    (stops : base.isStops = true) :
    (more = [] ∧ ∃ above' base', top = above' ++ [base'] ∧ base'.isStops = true ∧
      (above' = [] → ∀ report, base'.note client shared ≠ some (.reported report))) ∨
    ∃ role request next, top = [.running role (.ask request next)] ∧ request.isStop = true ∧
      more = [.waiting role next] := by
  cases move with
  | receive reply role next =>
    cases above with
    | nil =>
      cases frames
      exact .inl ⟨rfl, [.deliver reply], .waiting role next, rfl, stops, fun none => by cases none⟩
    | cons first above => simp at frames
  | pass reply held =>
    cases above with
    | nil =>
      cases frames
      cases stops
    | cons first above => simp at frames
  | @act frame p taken =>
    have leaves := Frame.step_leaves taken
    rw [frames] at leaves
    have unreported (report : StopReport) : frame.note client shared ≠ some (.reported report) := by
      intro noted
      have unstopping := Frame.unstopping_of_reported noted taken
      rw [unstopping base (by rw [frames]; simp)] at stops
      cases stops
    rcases leaves.cases_of_isStops stops with
      ⟨own, rfl⟩ | ⟨shutsDown, role, request, next, rfl, asks, ⟨_, _, rfl⟩ | ⟨_, rfl, rfl⟩⟩
    · exact .inl ⟨rfl, [], frame, rfl, own, fun _ => unreported⟩
    · exact .inr ⟨role, request, next, rfl, asks, rfl⟩
    · exact .inl ⟨rfl, [], _, rfl, stops, fun _ => unreported⟩

/-- A frame of a stop that is there after a step was there before, or one of the same stop was,
which did not report in the step; or the step called for the stop. -/
theorem Acted.base_of_isStops {client : Client W} {s s' : State W} {thread actor : ThreadId}
    {choice : Choice} (acted : Acted client s s' actor choice) {above below : List (Frame W)}
    {base : Frame W} (stack' : s'.stackOf thread = above ++ base :: below)
    (stops : base.isStops = true) :
    (∃ above' base', s.stackOf thread = above' ++ base' :: below ∧ base'.isStops = true ∧
      ∀ report, (⟨s, actor⟩ : Beat W).note client thread below.length ≠ some (.reported report)) ∨
    ∃ role request next rest, thread = actor ∧
      s.stackOf actor = .running role (.ask request next) :: rest ∧ request.isStop = true ∧
      below = .waiting role next :: rest := by
  by_cases same : thread = actor
  · subst same
    have quiet {first : Frame W} {above' : List (Frame W)} {base' : Frame W}
        (stack : s.stackOf thread = first :: above' ++ base' :: below) (report : StopReport) :
        (⟨s, thread⟩ : Beat W).note client thread below.length ≠ some (.reported report) := by
      have deep : below.length + 1 < (s.stackOf thread).length := by
        rw [stack, List.length_append, List.length_cons, List.length_cons]
        omega
      rw [Beat.note_of_deep deep]
      exact fun noted => by cases noted
    have stays (above' : List (Frame W)) (eq : acted.below = above' ++ base :: below) :
        ∃ above' base', s.stackOf thread = above' ++ base' :: below ∧ base'.isStops = true ∧
          ∀ report, (⟨s, thread⟩ : Beat W).note client thread below.length ≠
            some (.reported report) := by
      obtain ⟨first, rest, top⟩ := List.exists_cons_of_length_pos acted.move.length_pos
      have stack : s.stackOf thread = first :: (rest ++ above') ++ base :: below := by
        rw [acted.stackOf_eq, eq, top]
        simp
      exact ⟨_, base, stack, stops, quiet stack⟩
    rcases List.append_eq_append_iff.1 (stack'.symm.trans acted.stackOf_eq') with
      ⟨fresh, frames, rest⟩ | ⟨_, _, eq⟩
    · cases fresh with
      | nil => exact .inl (stays [] rest.symm)
      | cons first more =>
        obtain ⟨rfl, rfl⟩ := List.cons.inj rest
        have stack := acted.stackOf_eq
        rcases acted.move.base_of_isStops frames stops with
          ⟨rfl, above', base', top, stops', unreported⟩ | ⟨role, request, next, top, asks, rfl⟩
        · rw [top, List.append_assoc] at stack
          refine .inl ⟨above', base', stack, stops', ?_⟩
          cases above' with
          | nil =>
            exact fun report noted =>
              unreported rfl report ((Beat.note_eq stack).symm.trans noted)
          | cons first above' => exact quiet stack
        · rw [top] at stack
          exact .inr ⟨role, request, next, acted.below, rfl, stack, asks, rfl⟩
    · exact .inl (stays _ eq)
  · refine .inl ⟨above, base, ?_, stops, fun report noted => ?_⟩
    · obtain ⟨frame, rest, eq⟩ := List.exists_cons_of_ne_nil (l := above ++ base :: below) (by simp)
      obtain ⟨t, found, own⟩ := State.exists_of_stackOf (stack'.trans eq)
      rcases acted.other_eq same found with earlier | ⟨code, _, rfl⟩
      · rw [State.stackOf_of_found earlier, own, eq]
      · have inStack : base ∈ (State.clientThread code).stack := by rw [own, ← eq]; simp
        rw [List.mem_singleton.1 inStack] at stops
        cases stops
    · rw [Beat.note, if_neg (Ne.symm same)] at noted
      cases noted

def Note.isReport : Note W → Bool
  | reported _ => true
  | _ => false

def allReturn (client : Client W) : List (Beat W) → Bool
  | [] => true
  | beat :: after =>
    (match beat.s.stackOf beat.thread with
      | .running _ (.ask request _) :: rest =>
        !request.isStop || (notesOf client beat.thread (rest.length + 1) after).any Note.isReport
      | _ => true) && allReturn client after

theorem StopCall.returned_of_allReturn {client : Client W} {log : List (Beat W)}
    (all : allReturn client log = true) (call : StopCall log) : call.Returned client := by
  obtain ⟨before, beat, after, rfl, role, request, next, rest, stack, asks⟩ := call
  induction before with
  | nil =>
    rw [List.nil_append, allReturn, stack, Bool.and_eq_true] at all
    simp only [asks, Bool.not_true, Bool.false_or, List.any_eq_true] at all
    obtain ⟨⟨note, mem, reports⟩, _⟩ := all
    cases note with
    | reported report => exact ⟨report, mem⟩
    | _ => cases reports
  | cons first before ih =>
    rw [List.cons_append, allReturn, Bool.and_eq_true] at all
    exact ih all.2

namespace State

variable {client : Client W} {workers : Nat} {world : W} {kept : List ObjectId}
  {threads : List (Code W)} {s : State W} {log : List (Beat W)} {thread : ThreadId}

theorem start_isStops {above below : List (Frame W)} {base : Frame W}
    (stack : (State.start workers world kept threads).stackOf thread = above ++ base :: below) :
    base.isStops = false := by
  obtain ⟨frame, rest, eq⟩ := List.exists_cons_of_ne_nil (l := above ++ base :: below) (by simp)
  obtain ⟨t, found, own⟩ := exists_of_stackOf (stack.trans eq)
  have inStack : base ∈ t.stack := by
    rw [own, ← eq]
    simp
  rcases List.mem_append.1 (List.mem_of_getElem? found) with worker | ofClient
  · rw [(List.mem_replicate.1 worker).2] at inStack
    rw [List.mem_singleton.1 inStack]
    rfl
  · obtain ⟨code, _, rfl⟩ := List.mem_map.1 ofClient
    rw [List.mem_singleton.1 inStack]
    rfl

/-- A frame of a stop stands on what called for the stop, which has not reported since. -/
theorem Log.caller (run : Log client (State.start workers world kept threads) log s)
    (above : List (Frame W)) {below : List (Frame W)} {base : Frame W}
    (stack : s.stackOf thread = above ++ base :: below) (stops : base.isStops = true) :
    ∃ call : StopCall log, call.beat.thread = thread ∧ call.below = below ∧
      ¬ call.Returned client := by
  induction run generalizing thread above base below with
  | start =>
    rw [start_isStops stack] at stops
    cases stops
  | @step log s s' actor choice run taken ih =>
    obtain ⟨acted⟩ := step_cases taken
    rcases acted.base_of_isStops stack stops with
      ⟨above', base', stack', stops', quiet⟩ | ⟨role, request, next, rest, rfl, asks, stop, rfl⟩
    · obtain ⟨call, rfl, rfl, unreturned⟩ := ih above' stack' stops'
      exact ⟨call.extend _, rfl, rfl, StopCall.not_returned_extend unreturned quiet⟩
    · exact ⟨⟨log, ⟨s, thread⟩, [], rfl, role, request, next, rest, asks, stop⟩, rfl, rfl,
        fun ⟨report, mem⟩ => by cases mem⟩

/-! ## Stops that have returned -/

theorem Log.after_call {start : State W} (run : Log client start log s) (call : StopCall log) :
    ∃ s₁ shutsDown, Log client start (call.before ++ [call.beat]) s₁ ∧
      s₁.stackOf call.beat.thread = .takeHandlers shutsDown :: call.below ∧
      Log client s₁ call.after s := by
  obtain ⟨before, beat, after, rfl, role, request, next, rest, stack, asks⟩ := call
  obtain ⟨earlier, choice, s₁, taken, later⟩ := run.split
  obtain ⟨worker, p, moved, _, stack'⟩ := own_step stack (by rintro reply ⟨⟩) taken
  have asked : ∃ shutsDown, p.frames = [.takeHandlers shutsDown, .waiting role next] := by
    cases moved
    cases request <;> cases asks <;> exact ⟨_, rfl⟩
  obtain ⟨shutsDown, frames⟩ := asked
  rw [frames] at stack'
  exact ⟨s₁, shutsDown, earlier.step taken, stack', later⟩

/-- A stop that has reported made the notes of an account of all that it did, and then
reported. -/
theorem Log.account_of_reported {before later : List (Beat W)} {s₀ : State W} {shutsDown : Bool}
    {below : List (Frame W)} (run : Log client (State.start workers world kept threads) before s₀)
    (called : s₀.stackOf thread = .takeHandlers shutsDown :: below)
    (next : Log client s₀ later s)
    (reported : ∃ report, .reported report ∈ notesOf client thread below.length later) :
    ∃ (during : List (Beat W)) (beat : Beat W) (rest : List (Beat W)) (a : Account W),
      later = during ++ beat :: rest ∧ notesOf client thread below.length during =
        .took a.handlers :: .read a.listeners :: a.notes := by
  induction next with
  | start =>
    obtain ⟨report, mem⟩ := reported
    cases mem
  | @step later s s' actor choice next taken ih =>
    by_cases earlier : ∃ report, .reported report ∈ notesOf client thread below.length later
    · obtain ⟨during, beat, rest, a, rfl, told⟩ := ih earlier
      exact ⟨during, beat, rest ++ [⟨s, actor⟩], a, by simp, told⟩
    · obtain ⟨report, mem⟩ := reported
      rw [notesOf_append, notesOf_one] at mem
      have noted := (List.mem_append.1 mem).resolve_left fun mem => earlier ⟨report, mem⟩
      obtain ⟨rfl, frame, rest, stack, deep, note⟩ := Beat.frame_of_note (Option.mem_toList.1 noted)
      obtain ⟨above, base, stack', standing, _⟩ :=
        run.amid called next fun report mem => earlier ⟨report, mem⟩
      obtain ⟨rfl, rfl, rfl⟩ := eq_of_depth (stack'.symm.trans stack) deep.symm
      obtain ⟨a, _, _, told, _⟩ := standing.of_reported note
      exact ⟨later, ⟨s, actor⟩, [], a, rfl, told⟩

end State
end Strands
