/-
Courses: what becomes of one request for complete arguments.

The arguments of a call are completed by a chain of callbacks, from worker to worker, and
other work goes on in between.  A `Course` is one request seen alone: the evaluations of
defaults that it has had, and how far it has come.  `Folds` is what all of it amounts to,
the defaults evaluated one after another, each from the arguments before it, up to the
first that fails.  `Log.courses` takes a run apart into courses: as long as the queue is
open, the requests of a run are the requests of its courses, and what was handed over,
the futures that were made for arguments and the requests still under way are theirs.
-/
import Strands.Proofs.Quest
import Strands.Proofs.Units

namespace Strands

variable {W : Type}

/-! ## One argument after another -/

/-- The evaluation of one omitted argument from those before it. -/
structure Evaluation (W : Type) where
  omitted : Omitted W
  args : List Value
  future : FutureId
  outcome : Outcome

/-- Some of the omitted arguments were computed, each from those before it.  The others
are left, and so are the arguments so far. -/
inductive Filled (pending : List (Omitted W)) (args : List Value) :
    List (Evaluation W) → List (Omitted W) → List Value → Prop
  | none : Filled pending args [] pending args
  | next {evaluations : List (Evaluation W)} {omitted : Omitted W} {rest : List (Omitted W)}
      {soFar : List Value} {future : FutureId} {value : Value} :
      Filled pending args evaluations (omitted :: rest) soFar →
      Filled pending args (evaluations ++ [⟨omitted, soFar, future, .ok value⟩]) rest
        (soFar ++ [value])

/-- The omitted arguments were computed one after another, up to the first failure. -/
inductive Folds (pending : List (Omitted W)) (args : List Value) :
    List (Evaluation W) → Except DomainError (List Value) → Prop
  | complete {evaluations : List (Evaluation W)} {full : List Value} :
      Filled pending args evaluations [] full → Folds pending args evaluations (.ok full)
  | fails {evaluations : List (Evaluation W)} {omitted : Omitted W} {rest : List (Omitted W)}
      {soFar : List Value} {future : FutureId} {e : DomainError} :
      Filled pending args evaluations (omitted :: rest) soFar →
      Folds pending args (evaluations ++ [⟨omitted, soFar, future, .error e⟩]) (.error e)

/-- Complete arguments by a value for each omitted one, given those before it. -/
def completion (value : Omitted W → List Value → Outcome) :
    List (Omitted W) → List Value → Except DomainError (List Value)
  | [], args => .ok args
  | omitted :: rest, args =>
    match value omitted args with
    | .ok v => completion value rest (args ++ [v])
    | .error e => .error e

section Folding

variable {pending : List (Omitted W)} {args : List Value} {evaluations : List (Evaluation W)}
  {value : Omitted W → List Value → Outcome}

theorem Filled.completion_eq {rest : List (Omitted W)} {soFar : List Value}
    (filled : Filled pending args evaluations rest soFar)
    (agree : ∀ e ∈ evaluations, e.outcome = value e.omitted e.args) :
    completion value pending args = completion value rest soFar := by
  induction filled with
  | none => rfl
  | @next evaluations omitted rest soFar future v filled ih =>
    have here : value omitted soFar = .ok v :=
      (agree ⟨omitted, soFar, future, .ok v⟩ (by simp)).symm
    rw [ih fun e mem => agree e (List.mem_append_left _ mem), completion, here]

/-- If every default evaluates to its value, the result is that of the function. -/
theorem Folds.completion_eq {result : Except DomainError (List Value)}
    (folds : Folds pending args evaluations result)
    (agree : ∀ e ∈ evaluations, e.outcome = value e.omitted e.args) :
    completion value pending args = result := by
  cases folds with
  | complete filled => exact filled.completion_eq agree
  | @fails evaluations omitted rest soFar future e filled =>
    have here : value omitted soFar = .error e :=
      (agree ⟨omitted, soFar, future, .error e⟩ (by simp)).symm
    rw [filled.completion_eq fun e mem => agree e (List.mem_append_left _ mem), completion, here]

end Folding

/-! ## Courses -/

/-- How far a request has come. -/
inductive Stage (W : Type) where
  | pending (quest : Quest W)
  | handed (result : Except DomainError (List Value))
  /-- The receiver panicked when it was asked for its type. -/
  | abandoned (panic : Panic)

/-- A request for complete arguments, with the defaults that were evaluated for it. -/
structure Course (W : Type) where
  lookup : Lookup W
  evaluations : List (Evaluation W)
  stage : Stage W

namespace Course

def quests (c : Course W) : List (Quest W) :=
  match c.stage with
  | .pending quest => [quest]
  | _ => []

/-- What was handed over, with what it was handed to. -/
def handovers (c : Course W) : List (Next W × Except DomainError (List Value)) :=
  match c.stage with
  | .handed result => [(c.lookup.next, result)]
  | _ => []

def futures (c : Course W) : List FutureId :=
  c.evaluations.map Evaluation.future ++
    match c.stage with
    | .pending (.awaiting d _) => [d]
    | _ => []

/-- An argument's future is made, and its unit ends. -/
def turn (lookup : Lookup W) (e : Evaluation W) : List Event :=
  [.argument e.future lookup.next.call?, .ended e.future e.outcome]

/-- What a history has to say of a course, in this order. -/
def script (c : Course W) : List Event :=
  c.evaluations.flatMap (turn c.lookup) ++
    match c.stage with
    | .pending (.awaiting d _) => [.argument d c.lookup.next.call?]
    | _ => []

end Course

namespace Deed

def lookups : Deed W → List (Lookup W)
  | sought lookup => [lookup]
  | _ => []

def handovers : Deed W → List (Next W × Except DomainError (List Value))
  | handed quest result => [(quest.next, result)]
  | _ => []

def arguments : Deed W → List FutureId
  | argument f _ _ => [f]
  | _ => []

end Deed

/-- The resolution completes the arguments of a lookup. -/
structure Resolution.Serves (r : Resolution W) (lookup : Lookup W) : Prop where
  parent : r.parent = lookup.parent
  next : r.next = lookup.next

/-- How far a course has come, given its lookup and its evaluations. -/
def Stage.Sound (client : Client W) (ds : List (Deed W)) (lookup : Lookup W)
    (evaluations : List (Evaluation W)) : Stage W → Prop
  | pending (.asking asked) => asked = lookup ∧ evaluations = []
  | pending (.naming asked plan) =>
    asked = lookup ∧ evaluations = [] ∧ lookup.Finds client (.ok plan)
  | pending (.filling r) =>
    r.Serves lookup ∧ ∃ plan, lookup.Finds client (.ok plan) ∧
      Filled plan lookup.args evaluations r.pending r.args
  | pending (.awaiting d r) =>
    r.Serves lookup ∧ ∃ plan omitted, lookup.Finds client (.ok plan) ∧
      Filled plan lookup.args evaluations (omitted :: r.pending) r.args ∧
      .argument d omitted r ∈ ds
  | handed result =>
    (∃ e, lookup.Finds client (.error e) ∧ evaluations = [] ∧ result = .error e) ∨
      ∃ plan, lookup.Finds client (.ok plan) ∧ Folds plan lookup.args evaluations result
  | abandoned payload => evaluations = [] ∧ client.CanFault lookup.receiver payload

/-- The argument was asked for on behalf of the lookup. -/
def Evaluation.Asked (ds : List (Deed W)) (lookup : Lookup W) (e : Evaluation W) : Prop :=
  ∃ r : Resolution W, .argument e.future e.omitted r ∈ ds ∧ r.args = e.args ∧ r.Serves lookup

structure Course.Sound (client : Client W) (ds : List (Deed W)) (history : List Event)
    (c : Course W) : Prop where
  stage : c.stage.Sound client ds c.lookup c.evaluations
  asked : ∀ e ∈ c.evaluations, e.Asked ds c.lookup
  script : c.script.Sublist history

section Lasting

variable {client : Client W} {ds : List (Deed W)} {history : List Event} {c : Course W}

theorem Stage.Sound.mono {lookup : Lookup W} {evaluations : List (Evaluation W)} {stage : Stage W}
    (h : stage.Sound client ds lookup evaluations) (later : List (Deed W)) :
    stage.Sound client (ds ++ later) lookup evaluations := by
  cases stage with
  | pending quest =>
    cases quest with
    | awaiting d r =>
      obtain ⟨serves, plan, omitted, finds, filled, mem⟩ := h
      exact ⟨serves, plan, omitted, finds, filled, List.mem_append_left _ mem⟩
    | _ => exact h
  | _ => exact h

theorem Evaluation.Asked.mono {lookup : Lookup W} {e : Evaluation W} (h : e.Asked ds lookup)
    (later : List (Deed W)) : e.Asked (ds ++ later) lookup := by
  obtain ⟨r, asked, args, serves⟩ := h
  exact ⟨r, List.mem_append_left _ asked, args, serves⟩

theorem Course.Sound.mono (h : c.Sound client ds history) (later : List (Deed W))
    (events : List Event) : c.Sound client (ds ++ later) (history ++ events) :=
  ⟨h.stage.mono later, fun e mem => (h.asked e mem).mono later,
    h.script.trans (List.sublist_append_left _ _)⟩

end Lasting

/-! ## One step of a course -/

/-- A course goes on by one deed. -/
structure Course.Extends (δ : Deed W) (c c' : Course W) : Prop where
  lookup : c'.lookup = c.lookup
  gone : c.quests = δ.gone.toList
  made : c'.quests = δ.made.toList
  handed : c'.handovers = δ.handovers
  futures : c'.futures = c.futures ++ δ.arguments

theorem sublist_concat_of_after {l : List Event} {first last : Event} {history : List Event}
    (h : (l ++ [first]).Sublist history)
    (after : ∀ a b, history = a ++ first :: b → last ∈ b) :
    (l ++ [first, last]).Sublist history := by
  obtain ⟨h₁, h₂, rfl, before, here⟩ := List.append_sublist_iff.1 h
  obtain ⟨a, b, rfl⟩ := List.append_of_mem (List.singleton_sublist.1 here)
  have mem : last ∈ b := after (h₁ ++ a) b (by simp)
  refine before.append ?_
  refine List.Sublist.trans ?_ (List.sublist_append_right a _)
  exact (List.singleton_sublist.2 mem).cons_cons first

section Evaluated

variable {ds : List (Deed W)} {history : List Event} {lookup : Lookup W}
  {evaluations : List (Evaluation W)} {d : FutureId} {r : Resolution W} {omitted : Omitted W}

theorem asked_concat (asked : ∀ e ∈ evaluations, e.Asked ds lookup)
    (mem : .argument d omitted r ∈ ds) (serves : r.Serves lookup) (outcome : Outcome) :
    ∀ e ∈ evaluations ++ [⟨omitted, r.args, d, outcome⟩], e.Asked ds lookup := by
  intro e inList
  rcases List.mem_append.1 inList with earlier | new
  · exact asked e earlier
  · rw [List.mem_singleton.1 new]
    exact ⟨r, mem, rfl, serves⟩

theorem script_concat
    (script : (Course.script ⟨lookup, evaluations, .pending (.awaiting d r)⟩).Sublist history)
    {outcome : Outcome}
    (ends : ∀ a b, history = a ++ .argument d lookup.next.call? :: b → .ended d outcome ∈ b)
    (args : List Value) :
    ((evaluations ++ [(⟨omitted, args, d, outcome⟩ : Evaluation W)]).flatMap
      (Course.turn lookup)).Sublist history := by
  rw [List.flatMap_append]
  exact sublist_concat_of_after script ends

end Evaluated

section Extending

variable {client : Client W} {ds all : List (Deed W)} {history : List Event} {c : Course W}
  {δ : Deed W} {e : Event} {quest : Quest W}

/-- The deed that hands over the result of a course. -/
theorem Course.Sound.extend_handed (sound : c.Sound client ds history)
    (stage : c.stage = .pending quest) {result : Except DomainError (List Value)}
    (tells : (Deed.handed quest result).Tells e)
    (vouched : (Deed.handed quest result).Vouched client all)
    (ends : ∀ d outcome failing, e = .notified d outcome failing →
      ∀ a b, history = a ++ .argument d c.lookup.next.call? :: b → .ended d outcome ∈ b) :
    ∃ c', Extends (.handed quest result) c c' ∧
      c'.Sound client (ds ++ [.handed quest result]) (history ++ [e]) := by
  obtain ⟨lookup, evaluations, _⟩ := c
  obtain rfl : _ = Stage.pending quest := stage
  obtain ⟨stage, asked, script⟩ := sound
  have asked' : ∀ v ∈ evaluations, v.Asked (ds ++ [.handed quest result]) lookup :=
    fun v mem => (asked v mem).mono _
  have script' := script.trans (List.sublist_append_left history [e])
  cases quest with
  | asking lookup' =>
    obtain ⟨rfl, rfl⟩ := stage
    refine ⟨⟨lookup', [], .handed result⟩, ⟨rfl, rfl, rfl, rfl, rfl⟩, ⟨?_, asked', script'⟩⟩
    cases result with
    | ok args =>
      obtain ⟨finds, rfl⟩ := vouched
      exact .inr ⟨[], finds, .complete .none⟩
    | error e => exact .inl ⟨e, vouched, rfl, rfl⟩
  | naming lookup' plan => cases vouched
  | filling r =>
    obtain ⟨serves, plan, finds, filled⟩ := stage
    obtain ⟨pending, rfl⟩ := vouched
    rw [pending] at filled
    refine ⟨⟨lookup, evaluations, .handed (.ok r.args)⟩, ⟨rfl, rfl, rfl, ?_, ?_⟩,
      ⟨.inr ⟨plan, finds, .complete filled⟩, asked', script'⟩⟩
    · simp [Course.handovers, Deed.handovers, Quest.next, serves.next]
    · simp [Course.futures, Deed.arguments]
  | awaiting d r =>
    obtain ⟨serves, plan, omitted, finds, filled, mem⟩ := stage
    obtain ⟨err, rfl⟩ := vouched
    refine ⟨⟨lookup, evaluations ++ [⟨omitted, r.args, d, .error err⟩], .handed (.error err)⟩,
      ⟨rfl, rfl, rfl, ?_, ?_⟩, ⟨.inr ⟨plan, finds, .fails filled⟩,
        fun v inList => (asked_concat asked mem serves _ v inList).mono _, ?_⟩⟩
    · simp [Course.handovers, Deed.handovers, Quest.next, serves.next]
    · simp [Course.futures, Deed.arguments]
    · cases tells with
      | failing _ =>
        rw [Course.script, List.append_nil]
        exact (script_concat script (ends d _ _ rfl) _).trans (List.sublist_append_left _ _)
      | failed free _ => cases free
      | handed free _ => cases free

/-- The deed that takes a course's request away brings the course on. -/
theorem Course.Sound.extend (sound : c.Sound client ds history)
    (stage : c.stage = .pending quest) (gone : δ.gone = some quest) (tells : δ.Tells e)
    (vouched : δ.Vouched client all)
    (ends : ∀ d outcome failing, e = .notified d outcome failing →
      ∀ a b, history = a ++ .argument d c.lookup.next.call? :: b → .ended d outcome ∈ b) :
    ∃ c', Extends δ c c' ∧ c'.Sound client (ds ++ [δ]) (history ++ [e]) := by
  obtain ⟨lookup, evaluations, _⟩ := c
  obtain rfl : _ = Stage.pending quest := stage
  obtain ⟨stage, asked, script⟩ := sound
  have asked' : ∀ v ∈ evaluations, v.Asked (ds ++ [δ]) lookup := fun v mem => (asked v mem).mono _
  have script' := script.trans (List.sublist_append_left history [e])
  cases δ with
  | planned lookup' plan =>
    cases gone
    obtain ⟨rfl, rfl⟩ := stage
    exact ⟨⟨lookup', [], .pending (.naming lookup' plan)⟩, ⟨rfl, rfl, rfl, rfl, rfl⟩,
      ⟨rfl, rfl, vouched.1⟩, asked', script'⟩
  | began lookup' plan metadata =>
    cases gone
    obtain ⟨rfl, rfl, finds⟩ := stage
    exact ⟨⟨lookup', [], .pending (.filling (lookup'.resolution plan metadata))⟩,
      ⟨rfl, rfl, rfl, rfl, rfl⟩, ⟨⟨rfl, rfl⟩, plan, finds, .none⟩, asked', script'⟩
  | argument d omitted r =>
    cases gone
    obtain ⟨serves, plan, finds, filled⟩ := stage
    refine ⟨⟨lookup, evaluations, .pending (.awaiting d r)⟩, ⟨rfl, rfl, rfl, rfl, ?_⟩,
      ⟨⟨serves.1, serves.2⟩, plan, omitted, finds, filled, by simp⟩, asked', ?_⟩
    · simp [Course.futures, Deed.arguments]
    · cases tells with
      | argument call =>
        have next : r.next.call? = lookup.next.call? := congrArg Next.call? serves.2
        rw [call, next]
        simp only [Course.script, List.append_nil] at script ⊢
        exact script.append (List.Sublist.refl _)
  | gained d r value =>
    cases gone
    obtain ⟨serves, plan, omitted, finds, filled, mem⟩ := stage
    refine ⟨⟨lookup, evaluations ++ [⟨omitted, r.args, d, .ok value⟩],
        .pending (.filling { r with args := r.args ++ [value] })⟩, ⟨rfl, rfl, rfl, rfl, ?_⟩,
      ⟨⟨serves.1, serves.2⟩, plan, finds, filled.next⟩,
      fun v inList => (asked_concat asked mem serves _ v inList).mono _, ?_⟩
    · simp [Course.futures, Deed.arguments]
    · cases tells with
      | gained =>
        rw [Course.script, List.append_nil]
        exact (script_concat script (ends d _ _ rfl) _).trans (List.sublist_append_left _ _)
  | handed quest' result =>
    cases gone
    exact Course.Sound.extend_handed ⟨stage, asked, script⟩ rfl tells vouched ends
  | abandoned quest' panic =>
    cases gone
    cases quest with
    | asking lookup' =>
      obtain ⟨rfl, rfl⟩ := stage
      exact ⟨⟨lookup', [], .abandoned panic⟩, ⟨rfl, rfl, rfl, rfl, rfl⟩,
        ⟨rfl, vouched.2⟩, asked', script'⟩
    | naming lookup' plan =>
      obtain ⟨rfl, rfl, _⟩ := stage
      exact ⟨⟨lookup', [], .abandoned panic⟩, ⟨rfl, rfl, rfl, rfl, rfl⟩,
        ⟨rfl, vouched.2⟩, asked', script'⟩
    | filling r => cases vouched
    | awaiting d r => cases vouched
  | _ => cases gone

end Extending

/-! ## Runs -/

/-- Lists that weigh the same under all weights are the same but for their order. -/
theorem perm_iff_weigh {α : Type} {a b : List α} :
    a.Perm b ↔ ∀ w : α → Nat, weigh w a = weigh w b := by
  classical
  refine ⟨fun h w => (h.map w).sum_nat, fun h => List.perm_iff_count.2 fun x => ?_⟩
  have count (l : List α) : weigh (fun y => if y = x then 1 else 0) l = l.count x := by
    induction l with
    | nil => rfl
    | cons y rest ih =>
      rw [weigh_cons, ih, List.count_cons]
      by_cases same : y = x <;> simp [same, Nat.add_comm]
  rw [← count a, ← count b]
  exact h _

/-- A run taken apart into the courses of its requests. -/
structure Courses (client : Client W) (ds : List (Deed W)) (history : List Event) (s : State W)
    (courses : List (Course W)) : Prop where
  lookups : courses.map Course.lookup = ds.flatMap Deed.lookups
  quests : (courses.flatMap Course.quests).Perm s.quests
  handovers : (courses.flatMap Course.handovers).Perm (ds.flatMap Deed.handovers)
  futures : (courses.flatMap Course.futures).Perm (ds.flatMap Deed.arguments)
  sound : ∀ c ∈ courses, c.Sound client ds history

theorem Deed.made_of_gone {δ : Deed W} {quest : Quest W} (gone : δ.gone = some quest) :
    δ.made ≠ some quest := by
  cases δ <;> first | (cases gone; rintro ⟨⟩) | cases gone

theorem Deed.lookups_of_gone {δ : Deed W} {quest : Quest W} (gone : δ.gone = some quest) :
    δ.lookups = [] := by
  cases δ <;> first | rfl | cases gone

theorem Deed.of_gone_none {δ : Deed W} (gone : δ.gone = none) :
    (∃ lookup, δ = .sought lookup) ∨
      δ.made = none ∧ δ.lookups = [] ∧ δ.handovers = [] ∧ δ.arguments = [] := by
  cases δ with
  | sought lookup => exact .inl ⟨lookup, rfl⟩
  | _ => first | exact .inr ⟨rfl, rfl, rfl, rfl⟩ | cases gone

section Step

variable {client : Client W} {ds all : List (Deed W)} {history : List Event}
  {s s' : State W} {courses : List (Course W)} {δ : Deed W} {e : Event} {quest : Quest W}

/-- A lookup begins a course. -/
theorem Courses.begin (h : Courses client ds history s courses) {lookup : Lookup W}
    (balance : ∀ w, weigh w s'.quests = weigh w s.quests + w (.asking lookup)) :
    Courses client (ds ++ [.sought lookup]) (history ++ [e]) s'
      (courses ++ [⟨lookup, [], .pending (.asking lookup)⟩]) := by
  refine ⟨by simp [h.lookups, Deed.lookups], ?_, ?_, ?_, fun c mem => ?_⟩
  · rw [perm_iff_weigh]
    intro w
    have weights := perm_iff_weigh.1 h.quests w
    simp [Course.quests, balance, weights]
  · simpa [Course.handovers, Deed.handovers] using h.handovers
  · simpa [Course.futures, Deed.arguments] using h.futures
  · rcases List.mem_append.1 mem with earlier | new
    · exact (h.sound c earlier).mono _ _
    · rw [List.mem_singleton.1 new]
      exact ⟨⟨rfl, rfl⟩, List.forall_mem_nil _, List.nil_sublist _⟩

theorem Courses.keep (h : Courses client ds history s courses)
    (balance : ∀ w, weigh w s'.quests = weigh w s.quests) (noLookup : δ.lookups = [])
    (noHandover : δ.handovers = []) (noArgument : δ.arguments = []) :
    Courses client (ds ++ [δ]) (history ++ [e]) s' courses where
  lookups := by simp [h.lookups, noLookup]
  quests := h.quests.trans (perm_iff_weigh.2 fun w => (balance w).symm)
  handovers := by simpa [noHandover] using h.handovers
  futures := by simpa [noArgument] using h.futures
  sound c mem := (h.sound c mem).mono _ _

theorem Courses.exists_course (h : Courses client ds history s courses) (held : quest ∈ s.quests) :
    ∃ c ∈ courses, c.stage = .pending quest := by
  obtain ⟨c, mem, own⟩ := List.mem_flatMap.1 (h.quests.symm.subset held)
  refine ⟨c, mem, ?_⟩
  unfold Course.quests at own
  split at own
  · rename_i quest' eq
    rw [eq, List.mem_singleton.1 own]
  · cases own

/-- One of the courses goes on. -/
theorem Courses.bring {before after : List (Course W)} {c c' : Course W}
    (h : Courses client ds history s (before ++ c :: after)) (stage : c.stage = .pending quest)
    (gone : δ.gone = some quest)
    (balance : ∀ w, weigh w s'.quests + weigh w δ.gone.toList =
      weigh w s.quests + weigh w δ.made.toList)
    (extends' : c.Extends δ c') (sound' : c'.Sound client (ds ++ [δ]) (history ++ [e])) :
    Courses client (ds ++ [δ]) (history ++ [e]) s' (before ++ c' :: after) := by
  refine ⟨?_, ?_, ?_, ?_, fun d mem => ?_⟩
  · rw [List.flatMap_append, ← h.lookups]
    simp [extends'.lookup, Deed.lookups_of_gone gone]
  · rw [perm_iff_weigh]
    intro w
    have := balance w
    have := perm_iff_weigh.1 h.quests w
    simp [extends'.gone, extends'.made] at *
    omega
  · rw [perm_iff_weigh]
    intro w
    have := perm_iff_weigh.1 h.handovers w
    have none : c.handovers = [] := by simp [Course.handovers, stage]
    simp [extends'.handed, none] at *
    omega
  · rw [perm_iff_weigh]
    intro w
    have := perm_iff_weigh.1 h.futures w
    simp [extends'.futures] at *
    omega
  · rcases List.mem_append.1 mem with earlier | here
    · exact (h.sound d (List.mem_append_left _ earlier)).mono _ _
    · rcases List.mem_cons.1 here with rfl | following
      · exact sound'
      · exact (h.sound d (by simp [following])).mono _ _

/-- A request that a deed takes away was there. -/
theorem held_of_gone
    (balance : ∀ w, weigh w s'.quests + weigh w δ.gone.toList =
      weigh w s.quests + weigh w δ.made.toList)
    (gone : δ.gone = some quest) : quest ∈ s.quests := by
  have perm : (s'.quests ++ [quest]).Perm (s.quests ++ δ.made.toList) := by
    rw [perm_iff_weigh]
    intro w
    have := balance w
    simp only [gone, Option.toList_some] at this
    simpa using this
  rcases List.mem_append.1 (perm.subset (List.mem_append_right _ (List.mem_singleton.2 rfl)))
    with mem | mem
  · exact mem
  · exact absurd (Option.mem_toList.1 mem) (Deed.made_of_gone gone)

/-- A step brings the course on whose request its deed takes away, or begins a course. -/
theorem Courses.step (h : Courses client ds history s courses)
    (balance : ∀ w, weigh w s'.quests + weigh w δ.gone.toList =
      weigh w s.quests + weigh w δ.made.toList)
    (tells : δ.Tells e) (vouched : δ.Vouched client all)
    (ends : ∀ call d outcome failing, e = .notified d outcome failing → ∀ a b,
      history = a ++ .argument d call :: b → .ended d outcome ∈ b) :
    ∃ courses', Courses client (ds ++ [δ]) (history ++ [e]) s' courses' := by
  cases gone : δ.gone with
  | none =>
    rcases Deed.of_gone_none gone with ⟨lookup, rfl⟩ | ⟨made, noLookup, noHandover, noArgument⟩
    · exact ⟨_, h.begin fun w => by simpa [Deed.gone, Deed.made] using balance w⟩
    · exact ⟨_, h.keep (fun w => by simpa [gone, made] using balance w) noLookup noHandover
        noArgument⟩
  | some quest =>
    obtain ⟨c, mem, stage⟩ := h.exists_course (held_of_gone balance gone)
    obtain ⟨c', extends', sound'⟩ := (h.sound c mem).extend stage gone tells vouched
      (ends c.lookup.next.call?)
    obtain ⟨before, after, rfl⟩ := List.append_of_mem mem
    exact ⟨_, h.bring stage gone balance extends' sound'⟩

end Step

namespace State

variable {client : Client W} {workers : Nat} {world : W} {kept : List ObjectId}
  {threads : List (Code W)} {s : State W} {log : List (Beat W)}

theorem Trace.births_of_ended {history : List Event}
    (trace : Trace client (State.start workers world kept threads) history s) {d : FutureId}
    {outcome : Outcome} (ended : .ended d outcome ∈ history) :
    0 < tally (Event.births d) history := by
  have ends := tally_pos_of_mem (n := Event.ends d) ended (one_self d)
  have law := trace.unit_law d
  obtain ⟨u, found, _⟩ := trace.exists_record_of_claims d
    (trace.claims_of_runs (f := d) (by omega))
  rw [trace.recorded.births, found]
  exact Nat.one_pos

theorem Moment.ended_of_argument {a b : List Event} {d : FutureId} {call failing : Option FutureId}
    {outcome : Outcome}
    (moment : Moment client (State.start workers world kept threads)
      (a ++ .argument d call :: b) (.notified d outcome failing))
    (isOpen : ∀ futures, .closed futures ∉ a ++ .argument d call :: b) :
    .ended d outcome ∈ b := by
  have argument : .argument d call ∈ a ++ .argument d call :: b := by simp
  obtain ⟨frame, place, ⟨ended, _⟩ | ⟨refused, _⟩ | failed⟩ := moment.sound
  · rcases List.mem_append.1 ended with before | after
    · obtain ⟨s', trace'⟩ := moment.trace.ofPrefix
      have births := trace'.births_of_ended before
      have once := moment.trace.births_le d
      rw [tally_append, tally_cons, Event.births, one_self] at once
      omega
    · exact (List.mem_cons.1 after).resolve_left (by simp)
  · exact absurd refused (moment.trace.not_refused_of_open isOpen d)
  · exact absurd failed (moment.trace.not_failed_of_argument argument)

/-- While the queue is open, a run is made of courses. -/
theorem Log.courses (run : Log client (State.start workers world kept threads) log s)
    (isOpen : ∀ futures, .closed futures ∉ events client log) :
    ∃ courses, Courses client (deeds client log) (events client log) s courses := by
  induction run with
  | start =>
    refine ⟨[], rfl, ?_, .refl _, .refl _, fun c mem => by cases mem⟩
    rw [quests_start]
    exact .refl _
  | @step log s s' thread choice run taken ih =>
    rw [events_append] at isOpen
    obtain ⟨courses, h⟩ := ih fun futures mem => isOpen futures (List.mem_append_left _ mem)
    obtain ⟨acted⟩ := step_cases taken
    have vouched := (run.step taken).vouched.deeds ((⟨s, thread⟩ : Beat W).deed client)
      (by simp)
    rw [deeds_append, events_append]
    refine h.step (quests_step run.trace.recorded.numbered taken) (tells_of_acted acted) vouched ?_
    intro call d outcome failing event a b eq
    have trace := run.trace
    rw [eq] at trace isOpen
    have moment : Moment client (State.start workers world kept threads) _ _ :=
      ⟨s, s', thread, choice, trace, taken, event⟩
    exact moment.ended_of_argument fun futures mem => isOpen futures (List.mem_append_left _ mem)

end State
end Strands
